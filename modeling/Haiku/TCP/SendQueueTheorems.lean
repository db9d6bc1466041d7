import Haiku.TCP.ReceiveTheorems

/-!
# The send queue

The buffers of the send queue lie one behind the other, without holes: `RemoveUntil()`, `Get()` and
`Available()` treat them as the part of the stream that is not acknowledged yet, and the assertions
of the queue hold.
-/

namespace Haiku.TCP

open Lib

variable {α : Type} {initial : Sequence}

namespace BufferQueue

/-! ## Assertions -/

/-- The loop of `Verify()`; there is no result if an assertion fails. -/
def verifyLoop : Bool → ℕ → ℕ → Sequence → List (NetBuffer α) → Option (ℕ × ℕ × Sequence)
  | _, numBytes, contiguousBytes, last, [] => some (numBytes, contiguousBytes, last)
  | contiguous, numBytes, contiguousBytes, last, buffer :: list =>
    let contiguous := contiguous && buffer.sequence = last
    if last.le buffer.sequence ∧ buffer.size > 0 then
      verifyLoop contiguous (numBytes + buffer.size)
        (if contiguous then contiguousBytes + buffer.size else contiguousBytes) buffer.stop list
    else none

/-- `Verify()`, whether all assertions hold -/
def verify (q : BufferQueue α) : Bool :=
  if q.list.isEmpty then q.contiguousBytes = 0 && q.numBytes = 0
  else verifyLoop true 0 0 q.firstSequence q.list =
    some (q.numBytes, q.contiguousBytes, q.lastSequence)

/-- The assertion in the loop of `RemoveUntil()`: there are no holes. -/
def assertUntil (sequence : Sequence) : Sequence → List (NetBuffer α) → Bool
  | _, [] => true
  | lastRemoved, buffer :: list =>
    if buffer.sequence.lt sequence then
      lastRemoved = buffer.sequence &&
        (!sequence.ge buffer.stop || assertUntil sequence buffer.stop list)
    else true

end BufferQueue

/-! ## The send queue as a transition system -/

/-- The queue, with all bytes that were appended, and how many of them were acknowledged -/
structure Sender (α : Type) where
  queue : BufferQueue α
  stream : List α
  acknowledged : ℕ

inductive SendAction (α : Type)
  | add (data : List α)
  | removeUntil (acknowledge : Sequence)
  | get (sequence : Sequence) (bytes : ℕ)

namespace Sender

/-- `SetInitialSequence()` -/
def init (initial : Sequence) : Sender α := ⟨.init initial, [], 0⟩

def position (s : Sender α) (sequence : Sequence) : ℕ :=
  s.acknowledged + (sequence - s.queue.firstSequence).toNat

/-- A call of a function; it does not return if an assertion fails, or there is a panic. -/
def step (s : Sender α) : SendAction α → Option (Sender α)
  | .add data =>
    let queue := s.queue.add data s.queue.lastSequence
    if s.queue.verify && queue.verify then
      some { s with queue := queue, stream := s.stream ++ data }
    else none
  | .removeUntil acknowledge =>
    let queue := s.queue.removeUntil acknowledge
    let asserted := acknowledge.lt s.queue.firstSequence ||
      BufferQueue.assertUntil acknowledge s.queue.firstSequence s.queue.list
    if s.queue.verify && asserted && queue.verify then
      some { s with queue := queue, acknowledged := min (s.position acknowledge) s.stream.length }
    else none
  | .get sequence bytes =>
    if s.queue.verify && (s.queue.getFrom sequence bytes matches .ok _ | .error .badValue) then some s
    else none

/-- Less than `2^30` bytes wait for an acknowledge, which is one of them, or of the finish flag behind
them. -/
def Meets (s : Sender α) : SendAction α → Prop
  | .add data => s.stream.length - s.acknowledged + data.length < 2 ^ 30
  | .removeUntil acknowledge => acknowledge.ge s.queue.firstSequence = true ∧
    acknowledge.le (s.queue.lastSequence + 1) = true
  | .get sequence _ => sequence.ge s.queue.firstSequence = true ∧
    sequence.lt s.queue.lastSequence = true

instance {s : Sender α} {a : SendAction α} : Decidable (s.Meets a) := by
  cases a <;> unfold Meets <;> infer_instance

/-- The queue has the bytes that are not acknowledged, and gives out those it is asked for. -/
structure Right (initial : Sequence) (s : Sender α) : Prop where
  bytes : s.queue.bytes = s.stream.drop s.acknowledged
  first : s.queue.firstSequence = seqAt initial s.acknowledged
  last : s.queue.lastSequence = seqAt initial s.stream.length
  get : ∀ sequence bytes, s.Meets (.get sequence bytes) → s.queue.getFrom sequence bytes =
    .ok ((s.stream.drop (s.position sequence)).take bytes)
  available : ∀ sequence : Sequence, sequence.ge s.queue.firstSequence = true →
    sequence.le (s.queue.lastSequence + 1) = true →
      s.queue.availableFrom sequence = s.stream.length - s.position sequence

end Sender

/-! ## Buffers one behind the other -/

namespace BufferQueue

/-- The buffers are not empty, and the first one starts at the given position. -/
def Chained (initial : Sequence) : ℕ → List (NetBuffer α) → Prop
  | _, [] => True
  | p, buffer :: list => buffer.sequence = seqAt initial p ∧ buffer.data ≠ [] ∧
    Chained initial (p + buffer.size) list

variable {p x n : ℕ} {list : List (NetBuffer α)} {buffer : NetBuffer α}

lemma Chained.append (h : Chained initial p list)
    (hsequence : buffer.sequence = seqAt initial (p + (bytesOf list).length))
    (hdata : buffer.data ≠ []) : Chained initial p (list ++ [buffer]) := by
  induction list generalizing p with
  | nil => exact ⟨hsequence, hdata, trivial⟩
  | cons first list ih =>
    refine ⟨h.1, h.2.1, ih h.2.2 ?_⟩
    rw [hsequence, bytesOf_cons, List.length_append, ← Nat.add_assoc]
    rfl

lemma drop_bytesOf (h : buffer.size ≤ n) :
    (bytesOf (buffer :: list)).drop n = (bytesOf list).drop (n - buffer.size) := by
  rw [bytesOf_cons, List.drop_append, List.drop_eq_nil_of_le h, List.nil_append]
  rfl

lemma stop_of_sequence (h : buffer.sequence = seqAt initial p) :
    buffer.stop = seqAt initial (p + buffer.size) := by
  rw [NetBuffer.stop, h, seqAt_add]

lemma Chained.verifyLoop (h : Chained initial p list) (hsmall : (bytesOf list).length < 2 ^ 31)
    (n : ℕ) : verifyLoop true n n (seqAt initial p) list =
      some (n + (bytesOf list).length, n + (bytesOf list).length,
        seqAt initial (p + (bytesOf list).length)) := by
  induction list generalizing p n with
  | nil => rfl
  | cons buffer list ih =>
    have ⟨hsequence, hdata, hrest⟩ := h
    have hpos : buffer.size > 0 := List.length_pos_iff.2 hdata
    have hsum : (bytesOf (buffer :: list)).length = buffer.size + (bytesOf list).length :=
      List.length_append
    have hle : Sequence.le (seqAt initial p) buffer.sequence = true := by
      rw [hsequence, Sequence.le, sub_self]
      rfl
    rw [BufferQueue.verifyLoop, if_pos ⟨hle, hpos⟩, decide_eq_true hsequence, Bool.and_self, if_pos rfl,
      stop_of_sequence hsequence, ih hrest (by omega), hsum, Nat.add_assoc, Nat.add_assoc]

lemma Chained.dropUntil (h : Chained initial p list) (hx : p ≤ x)
    (hend : x ≤ p + (bytesOf list).length + 1) (hsmall : (bytesOf list).length < 2 ^ 30) :
    bytesOf (dropUntil (seqAt initial x) list).1 = (bytesOf list).drop (x - p) ∧
      (dropUntil (seqAt initial x) list).2 = min (x - p) (bytesOf list).length ∧
      Chained initial (p + min (x - p) (bytesOf list).length) (dropUntil (seqAt initial x) list).1 ∧
      assertUntil (seqAt initial x) (seqAt initial p) list = true := by
  induction list generalizing p with
  | nil =>
    refine ⟨by simp [BufferQueue.dropUntil], ?_, trivial, rfl⟩
    rw [bytesOf_nil, List.length_nil, Nat.min_zero]
    rfl
  | cons buffer list ih =>
    have ⟨hsequence, hdata, hrest⟩ := h
    have hpos : buffer.size > 0 := List.length_pos_iff.2 hdata
    have hsum : (bytesOf (buffer :: list)).length = buffer.size + (bytesOf list).length :=
      List.length_append
    have hstop := stop_of_sequence hsequence
    rw [hsum] at hend hsmall
    have hbefore : Sequence.lt (seqAt initial p) (seqAt initial x) = decide (p < x) :=
      lt_seqAt (by omega) (by omega)
    have hbehind : Sequence.ge (seqAt initial x) (seqAt initial (p + buffer.size)) =
        decide (x ≥ p + buffer.size) := ge_seqAt (by omega) (by omega)
    rw [BufferQueue.dropUntil, assertUntil, hsequence, hstop, hbefore, hbehind, hsum]
    by_cases hfront : p < x
    · rw [if_pos (decide_eq_true hfront), if_pos (decide_eq_true hfront)]
      by_cases hall : x ≥ p + buffer.size
      · have hih := ih hrest hall (by omega) (by omega)
        have hmin : p + min (x - p) (buffer.size + (bytesOf list).length) =
            p + buffer.size + min (x - (p + buffer.size)) (bytesOf list).length := by omega
        rw [if_pos (decide_eq_true hall), hmin]
        refine ⟨?_, ?_, hih.2.2.1, ?_⟩
        · show bytesOf (BufferQueue.dropUntil (seqAt initial x) list).1 = _
          rw [hih.1, drop_bytesOf (by omega), Nat.sub_sub]
        · show buffer.size + (BufferQueue.dropUntil (seqAt initial x) list).2 = _
          rw [hih.2.1]
          omega
        · rw [hih.2.2.2]
          simp
      · -- the header of the buffer is removed
        have hbytes : (seqAt initial x - seqAt initial p).toNat = x - p :=
          toNat_seqAt_sub hx (by omega)
        have hmin : min (x - p) (buffer.size + (bytesOf list).length) = x - p := by omega
        rw [if_neg (by simpa using hall), hmin, Nat.add_sub_cancel' hx]
        dsimp only
        rw [hbytes]
        refine ⟨?_, rfl, ⟨rfl, ?_, ?_⟩, ?_⟩
        · rw [bytesOf_cons, bytesOf_cons, List.drop_append_of_le_length (by show _ ≤ buffer.size; omega)]
          rfl
        · intro hnil
          have hzero := congrArg List.length hnil
          rw [NetBuffer.removeHeader, List.length_drop, List.length_nil] at hzero
          have hsize : buffer.data.length = buffer.size := rfl
          omega
        · have hsize : (buffer.removeHeader (x - p) (seqAt initial x)).size =
              buffer.size - (x - p) := List.length_drop
          rw [hsize, show x + (buffer.size - (x - p)) = p + buffer.size by omega]
          exact hrest
        · simp [hall]
    · have heq : x - p = 0 := by omega
      rw [if_neg (by simpa using hfront), if_neg (by simpa using hfront), heq, Nat.zero_min, Nat.add_zero]
      exact ⟨rfl, rfl, h, rfl⟩

lemma Chained.findSource (h : Chained initial p list) (hx : p ≤ x)
    (hend : x < p + (bytesOf list).length) (hsmall : (bytesOf list).length < 2 ^ 30) :
    ∃ source rest p', BufferQueue.findSource (seqAt initial x) list = source :: rest ∧
      source.sequence = seqAt initial p' ∧ p' ≤ x ∧ x < p' + source.size ∧ p ≤ p' ∧
      (bytesOf list).drop (x - p) = (bytesOf (source :: rest)).drop (x - p') := by
  induction list generalizing p with
  | nil => simp at hend; omega
  | cons buffer list ih =>
    have ⟨hsequence, _, hrest⟩ := h
    have hsum : (bytesOf (buffer :: list)).length = buffer.size + (bytesOf list).length :=
      List.length_append
    rw [hsum] at hend hsmall
    have hinside : Sequence.lt (seqAt initial x) buffer.stop = decide (x < p + buffer.size) := by
      rw [stop_of_sequence hsequence]
      exact lt_seqAt (by omega) (by omega)
    rw [BufferQueue.findSource, hinside]
    by_cases hlt : x < p + buffer.size
    · rw [if_pos (decide_eq_true hlt)]
      exact ⟨buffer, list, p, rfl, hsequence, hx, hlt, le_rfl, rfl⟩
    · obtain ⟨source, rest, p', hfind, hsource, hle, hlt', hge, hdrop⟩ :=
        ih hrest (by omega) (by omega) (by omega)
      rw [if_neg (by simpa using hlt)]
      refine ⟨source, rest, p', hfind, hsource, hle, hlt', by omega, ?_⟩
      rw [← hdrop, drop_bytesOf (by omega), Nat.sub_sub]

lemma cloneFrom_eq {offset bytes : ℕ} (hoffset : ∀ source ∈ list.head?, offset ≤ source.size) :
    cloneFrom offset bytes list = ((bytesOf list).drop offset).take bytes := by
  induction list generalizing offset bytes with
  | nil => simp [cloneFrom]
  | cons source list ih =>
    have hle : offset ≤ source.data.length := hoffset source rfl
    rw [cloneFrom]
    dsimp only
    by_cases hzero : bytes = 0
    · rw [if_pos hzero, hzero, List.take_zero]
    · have hrest : ∀ n, cloneFrom 0 n list = (bytesOf list).take n := by
        intro n
        rw [ih fun _ _ => Nat.zero_le _, List.drop_zero]
      have hlength : (source.data.drop offset).length = source.size - offset := List.length_drop
      rw [if_neg hzero, bytesOf_cons, List.drop_append_of_le_length hle, List.take_append, hlength,
        hrest]
      congr 1
      · rcases Nat.le_total bytes (source.size - offset) with h | h
        · rw [Nat.min_eq_right h]
        · rw [Nat.min_eq_left h, List.take_of_length_le hlength.le,
            List.take_of_length_le (hlength.le.trans h)]
      · congr 1
        omega

end BufferQueue

/-! ## Runs -/

namespace Sender

open BufferQueue

variable {s s' : Sender α} {a : SendAction α}

/-- The buffers are those of the stream behind what is acknowledged. -/
structure Inv (initial : Sequence) (s : Sender α) : Prop where
  bytes : s.queue.bytes = s.stream.drop s.acknowledged
  chained : Chained initial s.acknowledged s.queue.list
  first : s.queue.firstSequence = seqAt initial s.acknowledged
  last : s.queue.lastSequence = seqAt initial s.stream.length
  num : s.queue.numBytes = s.stream.length - s.acknowledged
  contiguous : s.queue.contiguousBytes = s.stream.length - s.acknowledged
  le : s.acknowledged ≤ s.stream.length
  small : s.stream.length - s.acknowledged < 2 ^ 30

lemma Inv.length (h : s.Inv initial) :
    (bytesOf s.queue.list).length = s.stream.length - s.acknowledged := by
  rw [← bytes_eq, h.bytes, List.length_drop]

lemma Inv.verify (h : s.Inv initial) : s.queue.verify = true := by
  have hlength := h.length
  have hle := h.le
  have hsmall := h.small
  unfold BufferQueue.verify
  by_cases hnil : s.queue.list.isEmpty = true
  · rw [List.isEmpty_iff.1 hnil] at hlength
    rw [if_pos hnil, h.num, h.contiguous, ← hlength]
    rfl
  · rw [if_neg hnil, h.first, h.chained.verifyLoop (by omega) 0, hlength, h.num, h.contiguous, h.last,
      Nat.zero_add, Nat.add_sub_cancel' hle]
    simp

lemma inv_init : (init initial : Sender α).Inv initial := by
  have hzero : initial = seqAt initial 0 := by simp [seqAt]
  exact ⟨rfl, trivial, hzero, hzero, rfl, rfl, le_rfl, Nat.two_pow_pos 30⟩

variable {sequence : Sequence}

section

variable (h : s.Inv initial)
include h

lemma Inv.position (hge : sequence.ge s.queue.firstSequence = true) :
    sequence = seqAt initial (s.position sequence) ∧ s.acknowledged ≤ s.position sequence ∧
      s.position sequence < s.acknowledged + 2 ^ 31 := by
  have hsign := BitVec.toInt_eq_toNat_cond (sequence - s.queue.firstSequence)
  have hpos : (sequence - s.queue.firstSequence).toInt ≥ 0 := of_decide_eq_true hge
  refine ⟨?_, Nat.le_add_right _ _, ?_⟩
  · rw [Sender.position, ← seqAt_add, ← h.first, BitVec.ofNat_toNat, BitVec.setWidth_eq]
    ring
  · rw [Sender.position]
    split at hsign <;> omega

lemma Inv.add {data : List α} (hmeets : s.Meets (.add data)) :
    ({ s with queue := s.queue.add data s.queue.lastSequence, stream := s.stream ++ data } :
      Sender α).Inv initial := by
  have hle := h.le
  have hsmall : s.stream.length - s.acknowledged + data.length < 2 ^ 30 := hmeets
  have hstream : (s.stream ++ data).length = s.stream.length + data.length := List.length_append
  have hstop : (⟨s.queue.lastSequence, data⟩ : NetBuffer α).stop =
      seqAt initial (s.stream.length + data.length) := stop_of_sequence h.last
  by_cases hdata : data = []
  · have hsame : s.queue.add data s.queue.lastSequence = s.queue := by
      simp [BufferQueue.add, hdata, NetBuffer.size]
    rw [hsame, hdata, List.append_nil]
    exact h
  have hpos : 0 < data.length := List.length_pos_iff.2 hdata
  -- the buffer is put behind the last one
  have hadd : s.queue.add data s.queue.lastSequence =
      s.queue.append ⟨s.queue.lastSequence, data⟩ := by
    have hnew : Sequence.le (seqAt initial (s.stream.length + data.length))
        (seqAt initial s.acknowledged) = false := by
      rw [le_seqAt (by omega) (by omega), decide_eq_false_iff_not]
      omega
    have hskip :
        ¬ ((⟨s.queue.lastSequence, data⟩ : NetBuffer α).stop.le s.queue.firstSequence = true ∨
        (⟨s.queue.lastSequence, data⟩ : NetBuffer α).size = 0) := by
      rw [hstop, h.first, hnew]
      simp [NetBuffer.size, hdata]
    have hold : ¬ s.queue.lastSequence.lt s.queue.firstSequence = true := by
      rw [h.last, h.first, lt_seqAt (by omega) (by omega), decide_eq_true_eq]
      omega
    have hend : s.queue.lastSequence.ge s.queue.lastSequence = true := by
      rw [Sequence.ge, sub_self]
      rfl
    unfold BufferQueue.add
    dsimp only
    rw [if_neg hskip, if_neg hold, if_pos (Or.inr hend)]
  have hfilled :
    s.queue.lastSequence - s.queue.firstSequence = BitVec.ofNat 32 s.queue.numBytes := by
    rw [h.last, h.first, seqAt_sub, h.num]
    bv_omega
  have hchained : Chained initial s.acknowledged (s.queue.list ++ [⟨s.queue.lastSequence, data⟩]) :=
    h.chained.append (by rw [h.length, Nat.add_sub_cancel' hle]; exact h.last) hdata
  have hbytes := h.bytes
  rw [bytes_eq] at hbytes
  have hle' : s.acknowledged ≤ (s.stream ++ data).length := by omega
  have hsmall' : (s.stream ++ data).length - s.acknowledged < 2 ^ 30 := by omega
  rw [hadd]
  constructor
  · show bytesOf (s.queue.list ++ [_]) = (s.stream ++ data).drop s.acknowledged
    rw [bytesOf_append, hbytes, List.drop_append_of_le_length hle, bytesOf_cons, bytesOf_nil,
      List.append_nil]
  · exact hchained
  · exact h.first
  · show (⟨s.queue.lastSequence, data⟩ : NetBuffer α).stop = _
    rw [hstop, hstream]
  · show s.queue.numBytes + data.length = (s.stream ++ data).length - s.acknowledged
    rw [h.num, hstream]
    omega
  · show (if _ then s.queue.contiguousBytes + data.length else _) =
      (s.stream ++ data).length - s.acknowledged
    rw [if_pos ⟨rfl, hfilled⟩, h.contiguous, hstream]
    omega
  · exact hle'
  · exact hsmall'

lemma Inv.removeUntil {acknowledge : Sequence} (hmeets : s.Meets (.removeUntil acknowledge)) :
    BufferQueue.assertUntil acknowledge s.queue.firstSequence s.queue.list = true ∧
      ({ s with
        queue := s.queue.removeUntil acknowledge
        acknowledged := min (s.position acknowledge) s.stream.length } : Sender α).Inv initial := by
  have hle := h.le
  have hsmall := h.small
  have hlength := h.length
  obtain ⟨hsequence, hge, hlt⟩ := h.position hmeets.1
  have hend := hmeets.2
  generalize s.position acknowledge = x at hsequence hge hlt ⊢
  have hone : s.queue.lastSequence + 1 = seqAt initial (s.stream.length + 1) := by
    rw [h.last, ← seqAt_add]
    rfl
  rw [hsequence, hone, le_seqAt (by omega) (by omega), decide_eq_true_eq] at hend
  obtain ⟨hbytes, hcount, hchained, hassert⟩ := h.chained.dropUntil hge (by omega) (by omega)
  have hmin : min x s.stream.length =
      s.acknowledged + min (x - s.acknowledged) (bytesOf s.queue.list).length := by omega
  have hnot : ¬ (seqAt initial x).lt s.queue.firstSequence = true := by
    rw [h.first, lt_seqAt (by omega) (by omega), decide_eq_true_eq]
    omega
  rw [hsequence, h.first]
  refine ⟨hassert, ?_⟩
  unfold BufferQueue.removeUntil
  rw [if_neg hnot]
  have hdrop : bytesOf (BufferQueue.dropUntil (seqAt initial x) s.queue.list).1 =
      s.stream.drop (min x s.stream.length) := by
    have hall := h.bytes
    rw [bytes_eq] at hall
    rw [hbytes, hall, List.drop_drop, Nat.add_sub_cancel' hge]
    rcases Nat.le_total x s.stream.length with hx | hx
    · rw [Nat.min_eq_left hx]
    · rw [Nat.min_eq_right hx, List.drop_of_length_le hx, List.drop_length]
  constructor
  · exact hdrop
  · show Chained initial (min x s.stream.length) _
    rw [hmin]
    exact hchained
  · dsimp only
    rw [hmin]
    generalize (BufferQueue.dropUntil (seqAt initial x) s.queue.list).1 = list at hdrop hchained ⊢
    cases list with
    | nil =>
      have hzero := congrArg List.length hdrop
      rw [bytesOf_nil, List.length_drop, List.length_nil] at hzero
      dsimp only
      rw [h.last]
      congr 1
      omega
    | cons buffer list => exact hchained.1
  · exact h.last
  · show s.queue.numBytes - _ = s.stream.length - min x s.stream.length
    rw [hcount, h.num]
    omega
  · show s.queue.contiguousBytes - _ = s.stream.length - min x s.stream.length
    rw [hcount, h.contiguous]
    omega
  · exact Nat.min_le_right _ _
  · show s.stream.length - min x s.stream.length < _
    omega

lemma Inv.get {bytes : ℕ} (hmeets : s.Meets (.get sequence bytes)) :
    s.queue.getFrom sequence bytes =
      .ok ((s.stream.drop (s.position sequence)).take bytes) := by
  have hle := h.le
  have hsmall := h.small
  have hlength := h.length
  obtain ⟨hsequence, hge, hlt⟩ := h.position hmeets.1
  have hend := hmeets.2
  generalize s.position sequence = x at hsequence hge hlt ⊢
  rw [hsequence, h.last, lt_seqAt (by omega) (by omega), decide_eq_true_eq] at hend
  unfold BufferQueue.getFrom
  by_cases hzero : bytes = 0
  · rw [if_pos hzero, hzero, List.take_zero]
  have hinside : ¬ (sequence.ge s.queue.lastSequence = true ∨
      sequence.lt s.queue.firstSequence = true) := by
    rw [hsequence, h.last, h.first, ge_seqAt (by omega) (by omega), lt_seqAt (by omega) (by omega),
      decide_eq_true_eq, decide_eq_true_eq]
    omega
  rw [if_neg hzero, if_neg hinside]
  dsimp only
  -- the number of bytes is cut at the end of the queue, if at all
  generalize hcut : (if Sequence.gt (sequence + BitVec.ofNat 32 bytes) s.queue.lastSequence = true
    then (s.queue.lastSequence - sequence).toNat else bytes) = n
  have htake : (s.stream.drop x).take n = (s.stream.drop x).take bytes := by
    split at hcut
    · rename_i hbeyond
      rw [hsequence, h.last, toNat_seqAt_sub hend.le (by omega)] at hcut
      rw [hsequence, h.last, seqAt_add] at hbeyond
      have hmany : s.stream.length - x ≤ bytes := by
        by_contra hfew
        rw [gt_seqAt (by omega) (by omega), decide_eq_true_eq] at hbeyond
        omega
      rw [← hcut, ← List.length_drop, List.take_length, List.take_of_length_le]
      rw [List.length_drop]
      exact hmany
    · rw [hcut]
  obtain ⟨source, rest, p', hfind, hsource, hle', hlt', hge', hdrop⟩ :=
    h.chained.findSource hge (by omega) (by omega)
  have hbefore : ¬ source.sequence.gt sequence = true := by
    rw [hsource, hsequence, gt_seqAt (by omega) (by omega), decide_eq_true_eq]
    omega
  have hoffset : (sequence - source.sequence).toNat = x - p' := by
    rw [hsource, hsequence]
    exact toNat_seqAt_sub hle' (by omega)
  have hall := h.bytes
  rw [bytes_eq] at hall
  have hfind' : BufferQueue.findSource sequence s.queue.list = source :: rest := by
    rw [hsequence]
    exact hfind
  rw [hfind']
  dsimp only
  rw [if_neg hbefore, hoffset, cloneFrom_eq, ← hdrop, hall, List.drop_drop, Nat.add_sub_cancel' hge,
    htake]
  intro first hfirst
  rw [← Option.mem_some.1 hfirst]
  omega

lemma Inv.available (hge : sequence.ge s.queue.firstSequence = true) :
    s.queue.availableFrom sequence = s.stream.length - s.position sequence := by
  have hacknowledged := h.le
  have hsmall := h.small
  obtain ⟨hsequence, hfirst, hlt⟩ := h.position hge
  generalize s.position sequence = x at hsequence hfirst hlt ⊢
  have hnext : s.queue.nextSequence = seqAt initial s.stream.length := by
    rw [BufferQueue.nextSequence, h.first, seqAt_add, h.contiguous, Nat.add_sub_cancel' hacknowledged]
  have hsum : BitVec.ofNat 32 s.queue.contiguousBytes + s.queue.firstSequence =
      seqAt initial s.stream.length := by
    rw [← hnext, BufferQueue.nextSequence, BitVec.add_comm]
  unfold BufferQueue.availableFrom
  rw [hsum, hnext, hsequence, gt_seqAt (by omega) (by omega)]
  by_cases hbehind : x > s.stream.length
  · rw [if_pos (decide_eq_true hbehind)]
    omega
  · rw [if_neg (by simpa using hbehind), toNat_seqAt_sub (by omega) (by omega)]

lemma Inv.step (hmeets : s.Meets a) : ∃ s', s.step a = some s' ∧ s'.Inv initial := by
  have hverify := h.verify
  cases a with
  | add data =>
    have hadd := h.add hmeets
    have hverify' := hadd.verify
    refine ⟨_, ?_, hadd⟩
    unfold step
    dsimp only at hverify' ⊢
    rw [hverify, hverify']
    rfl
  | removeUntil acknowledge =>
    obtain ⟨hassert, hremove⟩ := h.removeUntil hmeets
    have hverify' := hremove.verify
    refine ⟨_, ?_, hremove⟩
    unfold step
    dsimp only at hverify' ⊢
    rw [hverify, hverify', hassert, Bool.or_true]
    rfl
  | get sequence bytes =>
    refine ⟨s, ?_, h⟩
    unfold step
    dsimp only
    rw [hverify, h.get hmeets]
    rfl

end

/-- In every run the send queue has the bytes that are not acknowledged yet, gives out what it is
asked for, and runs into no assertion. -/
theorem sendQueue_right {hist : History (Sender α) (SendAction α)}
    (hr : Run step Meets (init initial) hist s) :
    s.Right initial ∧ ∀ a, s.Meets a → (s.step a).isSome = true := by
  have h : s.Inv initial := by
    apply hr.invariant (I := Inv initial) inv_init
    intro s a s' hs hmeets hstep
    obtain ⟨t, ht, hinv⟩ := hs.step hmeets
    rw [ht] at hstep
    rw [← Option.some.inj hstep]
    exact hinv
  refine ⟨⟨h.bytes, h.first, h.last, fun _ _ => h.get, fun _ hge _ => h.available hge⟩, ?_⟩
  intro a hmeets
  obtain ⟨t, ht, _⟩ := h.step hmeets
  rw [ht]
  rfl

/-- Around the wrap of the numbers: an acknowledge ends inside of a buffer, and bytes of two buffers
are asked for. -/
theorem sendQueue_right_wrapped :
    let s := outcome step (init 0xfffffffe : Sender UInt8)
      [.add [1, 2, 3], .add [4, 5], .removeUntil 0xffffffff, .get 0 3]
    s.stream = [1, 2, 3, 4, 5] ∧ s.acknowledged = 1 ∧ s.Right 0xfffffffe := by
  obtain ⟨hist, hr, _⟩ := @run_outcome _ _ Meets step (fun s a => decide (s.Meets a))
    (fun _ _ h => of_decide_eq_true h) (init 0xfffffffe : Sender UInt8)
    [.add [1, 2, 3], .add [4, 5], .removeUntil 0xffffffff, .get 0 3] (fun _ => true) (by decide)
  exact ⟨by decide, by decide, (sendQueue_right hr).1⟩

end Sender

end Haiku.TCP
