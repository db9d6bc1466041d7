import Haiku.Ring.Basic

/-!
# A ring buffer is a bounded queue

Every call on a ring buffer does what it does on the queue of the stored bytes, as long as the sums
of positions fit.
-/

namespace Haiku.Ring

open Lib

variable {α : Type} {b : RingBuffer α} {queue : List α}

lemma int32_of_lt {n : ℕ} (h : n < 2 ^ 31) : int32 n = some n := if_pos h

/-- The bytes of the queue are stored from the first position on. -/
structure RingBuffer.Holds (b : RingBuffer α) (queue : List α) : Prop where
  bytesIn_eq : b.bytesIn = queue.length
  bytesIn_le : b.bytesIn ≤ b.size
  first_lt : b.first < b.size
  size_lt : b.size < 2 ^ 31
  stored : RingHolds b.buffer b.size b.first queue

namespace RingBuffer

variable {position length : ℕ}

lemma bytesAt_length : (b.bytesAt position length).length = length := by
  unfold bytesAt
  rw [List.length_map, List.length_range]

lemma bytesAt_eq (h : RingHolds b.buffer b.size position queue) (hle : length ≤ queue.length)
    (hend : position + length ≤ b.size) : b.bytesAt position length = queue.take length := by
  apply List.ext_getElem
  · rw [bytesAt_length, List.length_take]
    omega
  · intro i hi _
    rw [bytesAt_length] at hi
    have hget := h i (by omega)
    rw [Nat.mod_eq_of_lt (by omega)] at hget
    simpa [bytesAt] using hget

lemma copyOut_eq (h : RingHolds b.buffer b.size position queue) (hle : length ≤ queue.length)
    (hsize : length ≤ b.size) (hposition : position < b.size) :
    b.copyOut position length (position + length) = queue.take length := by
  unfold copyOut
  dsimp only
  split_ifs with hend
  · exact bytesAt_eq h hle hend
  · have hsplit : queue = queue.take (b.size - position) ++ queue.drop (b.size - position) :=
      (List.take_append_drop _ _).symm
    rw [hsplit] at h
    have hupper := bytesAt_eq h.left (by simp; omega : b.size - position ≤ _) (by omega)
    have hmod : position + (queue.take (b.size - position)).length ≡ 0 [MOD b.size] := by
      have heq : position + (queue.take (b.size - position)).length = b.size := by simp; omega
      rw [heq]
      exact Nat.mod_self _
    have hlower := bytesAt_eq (h.right.modEq hmod)
      (by simp; omega : length - (b.size - position) ≤ _) (by omega)
    rw [hupper, hlower, List.take_take, min_self, ← List.take_add]
    congr 1
    omega

namespace Holds

lemma flush (h : b.Holds queue) (n : ℕ) : (b.flush n).Holds (queue.drop n) := by
  have hfirst := h.first_lt
  refine ⟨?_, ?_, Nat.mod_lt _ (by omega), h.size_lt, ?_⟩
  · show b.bytesIn - min n b.bytesIn = _
    rw [List.length_drop, h.bytesIn_eq]
    omega
  · have hle := h.bytesIn_le
    show b.bytesIn - min n b.bytesIn ≤ b.size
    omega
  · show RingHolds b.buffer b.size ((b.first + min n b.bytesIn) % b.size) (queue.drop n)
    have hstored := h.stored
    rw [← List.take_append_drop n queue] at hstored
    have hright := hstored.right
    rw [List.length_take, ← h.bytesIn_eq] at hright
    exact hright.modEq (Nat.mod_modEq _ _).symm

lemma read (h : b.Holds queue) (hfits : b.Fits (.read length)) :
    b.read length = some (b.flush length, queue.take length) := by
  have hfirst := h.first_lt
  have hle := h.bytesIn_le
  unfold RingBuffer.read
  dsimp only
  split_ifs with hzero
  · have hnone : queue.take length = [] := by
      rw [List.take_eq_nil_iff, ← List.length_eq_zero_iff, ← h.bytesIn_eq]
      omega
    have hflush : b.flush length = b := by
      unfold RingBuffer.flush
      dsimp only
      rw [hzero, Nat.add_zero, Nat.mod_eq_of_lt hfirst, Nat.sub_zero]
    rw [hnone, hflush]
  · rw [int32_of_lt (hfits.resolve_left hzero), Option.map_some,
      copyOut_eq h.stored (by rw [← h.bytesIn_eq]; omega) (by omega) hfirst, h.bytesIn_eq,
      ← List.take_eq_take_min]
    unfold RingBuffer.flush
    rw [h.bytesIn_eq]

lemma writes {data : List α} {stop : ℕ} (hposition : position < b.size)
    (hle : data.length ≤ b.size) (hstop : position + data.length = stop) :
    WritesRing (if stop ≤ b.size then [(position, data)]
      else [(position, data.take (b.size - position)), (0, data.drop (b.size - position))])
      b.size position data := by
  split_ifs with hend
  · exact .single (by omega)
  · have hupper : WritesRing [(position, data.take (b.size - position))] b.size position
        (data.take (b.size - position)) := .single (by simp; omega)
    have hlower : WritesRing [(0, data.drop (b.size - position))] b.size 0
        (data.drop (b.size - position)) := .single (by simp; omega)
    have hmod : 0 ≡ position + (data.take (b.size - position)).length [MOD b.size] := by
      have heq : position + (data.take (b.size - position)).length = b.size := by simp; omega
      rw [heq]
      exact (Nat.mod_self _).symm
    have hboth := hupper.append (hlower.modEq hmod) (by simp; omega)
    rwa [List.take_append_drop] at hboth

section

variable (h : b.Holds queue)
include h

lemma write {data : List α} (hfits : b.Fits (.write data)) : ∃ b',
    b.write data = some (b', (data.take (b.size - queue.length)).length) ∧
      b'.Holds (queue ++ data.take (b.size - queue.length)) ∧ b'.size = b.size := by
  have hfirst := h.first_lt
  have hbytes := h.bytesIn_le
  have hlength :
    (data.take (b.size - b.bytesIn)).length = min data.length (b.size - b.bytesIn) := by
    rw [List.length_take, Nat.min_comm]
  unfold Fits at hfits
  unfold RingBuffer.write
  dsimp only at hfits ⊢
  rw [← hlength] at hfits
  rw [← h.bytesIn_eq]
  generalize data.take (b.size - b.bytesIn) = data' at hlength hfits
  split_ifs with hzero
  · rw [hzero, List.length_eq_zero_iff.1 hzero, List.append_nil]
    exact ⟨b, rfl, h, rfl⟩
  · obtain ⟨hsum, hend⟩ := hfits.resolve_left hzero
    rw [int32_of_lt hsum, Option.bind_some, int32_of_lt hend, Option.map_some]
    have hwrites := writes (b := b) (Nat.mod_lt _ (by omega)) (by omega)
      (rfl : (b.first + b.bytesIn) % b.size + data'.length = _)
    have hmod : (b.first + b.bytesIn) % b.size ≡ b.first + queue.length [MOD b.size] := by
      rw [← h.bytesIn_eq]
      exact Nat.mod_modEq _ _
    refine ⟨_, rfl, ⟨?_, ?_, hfirst, h.size_lt, ?_⟩, rfl⟩
    · rw [List.length_append, ← h.bytesIn_eq]
    · show b.bytesIn + data'.length ≤ b.size
      omega
    · have hkept := hwrites.keeps hmod (by rw [← h.bytesIn_eq]; omega) h.stored
      exact hkept.append ((hwrites.holds _).modEq hmod)

lemma peek {offset length : BitVec 32}
    (hfits : b.Fits (.peek offset length)) : b.peek offset length =
      (((queue.drop offset.toNat).take length.toNat).length,
        (queue.drop offset.toNat).take length.toNat) := by
  have hfirst := h.first_lt
  have hbytes := h.bytesIn_le
  have hsize := h.size_lt
  have hqueue := h.bytesIn_eq
  unfold RingBuffer.peek
  dsimp only
  by_cases hnone : offset.toNat ≥ b.bytesIn ∨ length = 0
  · have hempty : (queue.drop offset.toNat).take length.toNat = [] := by
      rcases hnone with hle | hzero
      · rw [List.drop_eq_nil_of_le (hqueue ▸ hle), List.take_nil]
      · rw [hzero]
        rfl
    rw [if_pos hnone, hempty]
    rfl
  · rw [if_neg hnone]
    rw [not_or] at hnone
    have hwrap := (hfits.resolve_left hnone.1).resolve_left hnone.2
    rw [BitVec.toNat_add, Nat.mod_eq_of_lt hwrap]
    -- the bytes that are there, and the place of the first one
    generalize hn : (if offset.toNat + length.toNat > b.bytesIn then b.bytesIn - offset.toNat
      else length.toNat) = n
    generalize hp : (if offset.toNat + b.first ≥ b.size then offset.toNat + b.first - b.size
      else offset.toNat + b.first) = p
    have hcount : n = min length.toNat (b.bytesIn - offset.toNat) := by
      rw [← hn]
      split_ifs <;> omega
    have hlt : p < b.size := by
      rw [← hp]
      split_ifs <;> omega
    have htake : (queue.drop offset.toNat).take length.toNat =
        (queue.drop offset.toNat).take n := by
      rw [hcount, hqueue, ← List.length_drop, ← List.take_eq_take_min]
    have hle : n ≤ (queue.drop offset.toNat).length := by
      rw [List.length_drop]
      omega
    have hstored : RingHolds b.buffer b.size p (queue.drop offset.toNat) := by
      have hall := h.stored
      rw [← List.take_append_drop offset.toNat queue] at hall
      have hright := hall.right
      rw [List.length_take, Nat.min_eq_left (by omega), Nat.add_comm] at hright
      apply hright.modEq
      rw [← hp]
      split_ifs with hge
      · exact Nat.mod_eq_sub_mod hge
      · rfl
    rw [htake, Nat.mod_eq_of_lt (by omega), copyOut_eq hstored hle (by omega) hlt,
      List.length_take, Nat.min_eq_left hle]

lemma getVecs (hfits : b.Fits .getVecs) :
    b.getVecs.map (fun vecs => vecs.flatMap fun vec => b.bytesAt vec.1 vec.2) = some queue := by
  unfold RingBuffer.getVecs
  split_ifs with hzero
  · rw [h.bytesIn_eq, List.length_eq_zero_iff] at hzero
    rw [hzero]
    rfl
  · have hcopy := copyOut_eq h.stored h.bytesIn_eq.le h.bytesIn_le h.first_lt
    rw [h.bytesIn_eq, List.take_length, ← h.bytesIn_eq] at hcopy
    rw [int32_of_lt (hfits.resolve_left hzero), Option.map_some, Option.map_some, ← hcopy]
    unfold copyOut
    split_ifs <;> simp

lemma exec {call : Call α} (hfits : b.Fits call) : ∃ b',
    b.exec call = some (b', (execQueue b.size queue call).2) ∧
      b'.Holds (execQueue b.size queue call).1 ∧ b'.size = b.size := by
  cases call with
  | write data =>
    obtain ⟨b', heq, hholds, hsize⟩ := h.write hfits
    exact ⟨b', by rw [RingBuffer.exec, heq]; rfl, hholds, hsize⟩
  | read length =>
    rw [RingBuffer.exec, h.read hfits]
    exact ⟨_, rfl, h.flush length, rfl⟩
  | flush length => exact ⟨_, rfl, h.flush length, rfl⟩
  | peek offset length => exact ⟨b, by rw [RingBuffer.exec, h.peek hfits]; rfl, h, rfl⟩
  | getVecs =>
    obtain ⟨vecs, hvecs, hdata⟩ := Option.map_eq_some_iff.1 (h.getVecs hfits)
    exact ⟨b, by rw [RingBuffer.exec, hvecs, Option.map_some, hdata]; rfl, h, rfl⟩

lemma right {calls : List (Call α)} (hmeets : b.Meets calls) : b.Right b.size queue calls := by
  induction calls generalizing b queue with
  | nil => trivial
  | cons call calls ih =>
    obtain ⟨b', hexec, hholds, hsize⟩ := h.exec hmeets.1
    refine ⟨b', hexec, ?_⟩
    rw [← hsize] at hholds ⊢
    exact ih hholds (hmeets.2 _ hexec)

end

end Holds

end RingBuffer

/-- From a new buffer all calls are answered as by an empty queue of its capacity. -/
def Fifo (capacity : ℕ) (memory : ℕ → α) (calls : List (Call α)) : Prop :=
  ∃ b, RingBuffer.create capacity memory = some b ∧ b.Right capacity [] calls

/-- A ring buffer is a bounded queue in every run in which no sum of positions overflows or
wraps. -/
theorem ring_fifo {capacity : ℕ} (hpos : 0 < capacity) (memory : ℕ → α) (calls : List (Call α))
    (hcapacity : capacity < 2 ^ 31)
    (hmeets : RingBuffer.Meets ⟨0, 0, capacity, memory⟩ calls) : Fifo capacity memory calls := by
  have hholds : RingBuffer.Holds ⟨0, 0, capacity, memory⟩ [] :=
    ⟨rfl, Nat.zero_le _, hpos, hcapacity, .nil⟩
  refine ⟨_, ?_, hholds.right hmeets⟩
  rw [RingBuffer.create, int32_of_lt hcapacity]
  rfl

/-- Three bytes in a buffer of two, which are read and looked at across its end. -/
def wrappedCalls : List (Call ℕ) :=
  [.write [1, 2, 3], .read 1, .write [4], .peek 1 5, .getVecs]

theorem ring_fifo_wrapped : Fifo 2 (fun _ => 0) wrappedCalls :=
  ring_fifo (by decide) _ _ (by decide) (by
    simp only [wrappedCalls, RingBuffer.Meets, RingBuffer.Fits]
    simp [RingBuffer.exec, RingBuffer.write, RingBuffer.read, int32]
    rintro _ _ _ rfl _ _
    exact .inr (by decide))

/-- The end of the peek wraps to 0, and it reads `2^32 - 1` bytes instead of one. -/
theorem not_ring_fifo : ¬ ∀ calls : List (Call ℕ), Fifo 2 (fun _ => 0) calls := by
  intro h
  obtain ⟨b, hcreate, hright⟩ := h [.write [1, 2], .peek 1 0xffffffff]
  have hcreate : some ⟨0, 0, 2, fun _ => 0⟩ = some b := hcreate
  rw [← Option.some.inj hcreate] at hright
  obtain ⟨b₁, hwrite, b₂, hpeek, _⟩ := hright
  have hfirst : b₁.bytesIn = 2 :=
    congrArg RingBuffer.bytesIn (Prod.mk.inj (Option.some.inj hwrite)).1.symm
  have hcount : (b₁.peek 1 0xffffffff).1 = 1 :=
    congrArg Prod.fst (Prod.mk.inj (Option.some.inj hpeek)).2
  have hall : (b₁.peek 1 0xffffffff).1 = 0xffffffff := by
    unfold RingBuffer.peek
    rw [hfirst]
    rfl
  rw [hall] at hcount
  exact absurd hcount (by decide)

/-! ## Reattaching -/

def RingBuffer.contents (b : RingBuffer α) : List α :=
  (List.range b.bytesIn).map fun i => b.buffer ((b.first + i) % b.size)

def Image.Valid (memory : Image α) (size : BitVec 32) : Prop :=
  memory.size = size ∧ 0 ≤ memory.bytesIn.toInt ∧ memory.bytesIn.toInt ≤ size.toInt ∧
    0 ≤ memory.first.toInt ∧ memory.first.toInt < size.toInt

/-- The buffer made from the image is a ring buffer with the bytes of a valid image of its size, and
empty for every other image. -/
def Image.Reattached (memory : Image α) (size : BitVec 32) : Prop :=
  let b := memory.create size
  b.size < 2 ^ 31 ∧ b.first < b.size ∧ b.bytesIn ≤ b.size ∧
    (memory.Valid size → b.contents = (List.range memory.bytesIn.toNat).map fun i =>
      memory.buffer ((memory.first.toNat + i) % memory.size.toNat)) ∧
    (¬ memory.Valid size → b.contents = [])

/-- A buffer is rightly made from an image if and only if the new size is an `int32`, and the image
has the same size, or a first position or a number of bytes that is impossible for the new size, or
no bytes. -/
theorem ring_reattached {size : BitVec 32} (hpos : 0 < size) (memory : Image α) :
    memory.Reattached size ↔ size.toNat < 2 ^ 31 ∧ (memory.size = size ∨
      ¬ (memory.bytesIn ≤ size ∧ memory.first < size) ∨ memory.bytesIn = 0) := by
  have hsize : (memory.create size).size = size.toNat := by
    unfold Image.create
    dsimp only
    split_ifs <;> rfl
  by_cases hfits : size.toNat < 2 ^ 31
  · have hpos : 0 < size.toNat := hpos
    have hint : size.toInt = size.toNat := BitVec.toInt_eq_toNat_of_lt (by omega)
    have hsigned : ∀ n : BitVec 32, n.toNat ≤ size.toNat → n.toInt = n.toNat :=
      fun n hn => BitVec.toInt_eq_toNat_of_lt (by omega)
    have hrange : ∀ n : BitVec 32, 0 ≤ n.toInt → n.toInt ≤ size.toNat → n.toNat ≤ size.toNat := by
      intro n hlo hhi
      rw [BitVec.toInt_eq_toNat_cond] at hlo hhi
      have hlt := n.isLt
      split_ifs at hlo hhi <;> omega
    have hvalid : memory.Valid size ↔
        memory.size = size ∧ memory.bytesIn ≤ size ∧ memory.first < size := by
      unfold Image.Valid
      rw [hint]
      constructor
      · rintro ⟨heq, hlo, hhi, hlo', hhi'⟩
        have hfirst := hrange _ hlo' hhi'.le
        rw [hsigned _ hfirst] at hhi'
        exact ⟨heq, hrange _ hlo hhi, by exact_mod_cast hhi'⟩
      · rintro ⟨heq, hbytes, hfirst⟩
        have hlt : memory.first.toNat < size.toNat := hfirst
        rw [hsigned _ hbytes, hsigned _ hlt.le]
        exact ⟨heq, Int.natCast_nonneg _, by exact_mod_cast hbytes, Int.natCast_nonneg _,
          by exact_mod_cast hlt⟩
    unfold Image.Reattached
    dsimp only
    rw [hsize, hvalid]
    by_cases hkeeps : memory.bytesIn ≤ size ∧ memory.first < size
    · have hlt : memory.first.toNat < size.toNat := hkeeps.2
      have hcreate : memory.create size =
          ⟨memory.first.toNat, memory.bytesIn.toNat, size.toNat, memory.buffer⟩ := by
        refine if_pos ⟨rfl, ?_, hkeeps.1, ?_, hkeeps.2⟩
        · rw [hsigned _ hkeeps.1]
          exact Int.natCast_nonneg _
        · rw [hsigned _ hlt.le]
          exact Int.natCast_nonneg _
      rw [hcreate]
      by_cases hsame : memory.size = size
      · refine iff_of_true ⟨hfits, hlt, hkeeps.1, ?_, ?_⟩ ⟨hfits, .inl hsame⟩
        · intro _
          rw [hsame]
          rfl
        · intro hnot
          exact absurd ⟨hsame, hkeeps⟩ hnot
      · constructor
        · rintro ⟨_, _, _, _, hempty⟩
          refine ⟨hfits, .inr (.inr ?_)⟩
          have hlength := congrArg List.length (hempty fun h => hsame h.1)
          unfold RingBuffer.contents at hlength
          rw [List.length_map, List.length_range] at hlength
          exact BitVec.eq_of_toNat_eq hlength
        · rintro ⟨_, heq | hnot | hzero⟩
          · exact absurd heq hsame
          · exact absurd hkeeps hnot
          · refine ⟨hfits, hlt, hkeeps.1, fun h => absurd h.1 hsame, fun _ => ?_⟩
            rw [hzero]
            rfl
    · have hcreate : memory.create size = ⟨0, 0, size.toNat, memory.buffer⟩ :=
        if_neg fun h => hkeeps ⟨h.2.2.1, h.2.2.2.2⟩
      rw [hcreate]
      exact iff_of_true ⟨hfits, hpos, Nat.zero_le _, fun h => absurd h.2 hkeeps, fun _ => rfl⟩
        ⟨hfits, .inr (.inl hkeeps)⟩
  · refine iff_of_false ?_ fun h => hfits h.1
    rintro ⟨hlt, _⟩
    exact hfits (hsize ▸ hlt)

theorem ring_reattached_same : Image.Reattached (⟨1, 2, 4, fun i => i⟩ : Image ℕ) 4 :=
  (ring_reattached (by decide) _).2 ⟨by decide, .inl rfl⟩

/-- A buffer of four bytes is taken for one of eight. -/
theorem not_ring_reattached : ¬ ∀ (memory : Image ℕ) (size : BitVec 32), 0 < size →
    memory.Reattached size := by
  intro h
  have hempty := (h ⟨1, 2, 4, fun i => i⟩ 8 (by decide)).2.2.2.2 fun hvalid =>
    absurd hvalid.1 (by decide)
  exact absurd hempty (by decide)

end Haiku.Ring
