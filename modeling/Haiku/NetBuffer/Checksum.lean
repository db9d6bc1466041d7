import Mathlib.Data.Nat.ModEq
import Mathlib.Tactic.Ring

/-!
# The checksum of a buffer

`compute_checksum()` of `src/add-ons/kernel/network/stack/utility.cpp` on a little endian host, and
`checksum_data()` of `net_buffer.cpp`. A buffer is a chain of data nodes, each of which knows the
position of its first byte.
-/

namespace Haiku.NetBuffer

inductive Status
  | badValue
  | error

/-- `compute_checksum()` before it folds: `sum` has 32 bits. -/
def sumWords : List UInt8 → ℕ → ℕ
  | low :: high :: bytes, sum => sumWords bytes ((sum + (low.toNat + 256 * high.toNat)) % 2 ^ 32)
  | [last], sum => (sum + last.toNat) % 2 ^ 32
  | [], sum => sum

/-- `while (sum >> 16)` -/
def fold (sum : ℕ) : ℕ :=
  if sum / 2 ^ 16 = 0 then sum else fold (sum % 2 ^ 16 + sum / 2 ^ 16)
termination_by sum
decreasing_by omega

def computeChecksum (bytes : List UInt8) : ℕ := fold (sumWords bytes 0)

def swapInt16 (n : ℕ) : ℕ := n % 256 * 256 + n / 256

structure DataNode where
  offset : ℕ
  data : List UInt8

def DataNode.used (node : DataNode) : ℕ := node.data.length

/-- Every node begins where the one before it ends. -/
def Chained : ℕ → List DataNode → ℕ → Prop
  | start, [], stop => start = stop
  | start, node :: nodes, stop => node.offset = start ∧ Chained (start + node.used) nodes stop

/-- `net_buffer_private` -/
structure Buffer where
  buffers : List DataNode
  size : ℕ
  chained : Chained 0 buffers size

/-- `get_node_at_offset()`, with the nodes behind it -/
def getNodeAtOffset : List DataNode → ℕ → List DataNode
  | [], _ => []
  | node :: nodes, offset =>
    if node.offset + node.used ≤ offset then getNodeAtOffset nodes offset else node :: nodes

/-- What `checksum_data()` adds for some bytes of a node. -/
def nodeSum (node : DataNode) (offset bytes : ℕ) : ℕ :=
  let part := computeChecksum ((node.data.drop offset).take bytes)
  -- if we're at an uneven offset, we have to swap the checksum
  if (offset + node.offset) % 2 = 1 then swapInt16 part else part

/-- The loop of `checksum_data()`, which fails when there are no more nodes. -/
def sumNodes : List DataNode → ℕ → ℕ → ℕ → Option ℕ
  | [], _, _, _ => none
  | node :: nodes, offset, size, sum =>
    let bytes := min size (node.used - offset)
    let sum := (sum + nodeSum node offset bytes) % 2 ^ 32
    if size - bytes = 0 then some sum else sumNodes nodes 0 (size - bytes) sum

def checksumData (buffer : Buffer) (offset size : ℕ) (finalize : Bool) : Except Status ℕ :=
  if offset + size > buffer.size ∨ size = 0 then .error .badValue
  else match getNodeAtOffset buffer.buffers offset with
    | [] => .error .error
    | node :: nodes => match sumNodes (node :: nodes) (offset - node.offset) size 0 with
      | none => .error .error
      | some sum => .ok (if finalize then 2 ^ 16 - 1 - fold sum else fold sum)

/-! ## One's complement sums -/

/-- The addition of 16 bit numbers with an end-around carry -/
def addCarry (a b : ℕ) : ℕ := if a + b < 2 ^ 16 then a + b else a + b - 2 ^ 16 + 1

/-- The 16 bit one's complement sum of an array of bytes -/
def onesSum : List UInt8 → ℕ → ℕ
  | low :: high :: bytes, sum => onesSum bytes (addCarry sum (low.toNat + 256 * high.toNat))
  | [last], sum => addCarry sum last.toNat
  | [], sum => sum

def Buffer.bytes (buffer : Buffer) : List UInt8 := (buffer.buffers.map DataNode.data).flatten

/-- The same number in one's complement, and both are 0 or none is. -/
structure Same (a b : ℕ) : Prop where
  mod : a ≡ b [MOD 65535]
  zero : a = 0 ↔ b = 0

section
variable {a b c d n sum size offset start stop : ℕ} {bytes bytes' : List UInt8}
  {nodes : List DataNode}

lemma Same.rfl : Same a a := ⟨Nat.ModEq.rfl, Iff.rfl⟩

lemma Same.symm (h : Same a b) : Same b a := ⟨h.mod.symm, h.zero.symm⟩

lemma Same.trans (h : Same a b) (h' : Same b c) : Same a c :=
  ⟨h.mod.trans h'.mod, h.zero.trans h'.zero⟩

lemma Same.add (h : Same a b) (h' : Same c d) : Same (a + c) (b + d) := by
  have hzero := h.zero
  have hzero' := h'.zero
  exact ⟨h.mod.add h'.mod, by omega⟩

lemma Same.eq (h : Same a b) (ha : a < 2 ^ 16) (hb : b < 2 ^ 16) : a = b := by
  have hmod := h.mod
  have hzero := h.zero
  unfold Nat.ModEq at hmod
  omega

lemma same_swapInt16 (h : n < 2 ^ 16) : Same (swapInt16 n) (256 * n) := by
  unfold swapInt16
  refine ⟨?_, by omega⟩
  unfold Nat.ModEq
  omega

lemma Same.swapInt16 (h : Same a b) (ha : a < 2 ^ 16) : Same (swapInt16 a) (256 * b) := by
  refine (same_swapInt16 ha).trans ⟨h.mod.mul_left 256, ?_⟩
  have hzero := h.zero
  omega

lemma swapInt16_lt (h : n < 2 ^ 16) : swapInt16 n < 2 ^ 16 := by
  unfold NetBuffer.swapInt16
  omega

lemma fold_spec (sum : ℕ) : Same (fold sum) sum ∧ fold sum < 2 ^ 16 := by
  induction sum using fold.induct with
  | case1 sum hsmall =>
    rw [fold, if_pos hsmall]
    exact ⟨Same.rfl, by omega⟩
  | case2 sum hlarge ih =>
    rw [fold, if_neg hlarge]
    refine ⟨ih.1.trans ⟨?_, by omega⟩, ih.2⟩
    unfold Nat.ModEq
    omega

lemma addCarry_spec (hb : b < 2 ^ 16) (ha : a < 2 ^ 16) :
    Same (addCarry a b) (a + b) ∧ addCarry a b < 2 ^ 16 := by
  unfold addCarry
  split_ifs with hlt
  · exact ⟨Same.rfl, hlt⟩
  · refine ⟨⟨?_, by omega⟩, by omega⟩
    unfold Nat.ModEq
    omega

/-- The sum of bytes that begin at an even position, or at an odd one -/
def weigh : Bool → List UInt8 → ℕ
  | _, [] => 0
  | odd, b :: bytes => (if odd then 256 * b.toNat else b.toNat) + weigh (!odd) bytes

lemma weigh_append (odd : Bool) (bytes bytes' : List UInt8) :
    weigh odd (bytes ++ bytes') =
      weigh odd bytes + weigh (odd ^^ decide (bytes.length % 2 = 1)) bytes' := by
  induction bytes generalizing odd with
  | nil => simp [weigh]
  | cons b bytes ih =>
    have hparity : ((!odd) ^^ decide (bytes.length % 2 = 1)) =
        (odd ^^ decide ((b :: bytes).length % 2 = 1)) := by
      rw [List.length_cons]
      rcases Nat.mod_two_eq_zero_or_one bytes.length with h | h
      · simp [h, Nat.add_mod]
      · simp [h, Nat.add_mod]
    rw [List.cons_append, weigh, weigh, ih, hparity, add_assoc]

lemma same_weigh (odd : Bool) (bytes : List UInt8) :
    Same (weigh (!odd) bytes) (256 * weigh odd bytes) := by
  induction bytes generalizing odd with
  | nil => exact Same.rfl
  | cons b bytes ih =>
    rw [weigh, weigh, mul_add]
    refine Same.add ?_ (ih (!odd))
    cases odd with
    | false => exact Same.rfl
    | true =>
      refine ⟨?_, by simp⟩
      unfold Nat.ModEq
      simp only [Bool.not_true, Bool.false_eq_true, if_false, if_true]
      omega

lemma sumWords_eq (h : sum + 65280 * bytes.length < 2 ^ 32) :
    sumWords bytes sum = sum + weigh false bytes := by
  induction bytes, sum using sumWords.induct with
  | case1 low high bytes sum ih =>
    have hlow := low.toNat_lt
    have hhigh := high.toNat_lt
    rw [List.length_cons, List.length_cons] at h
    have hmod : (sum + (low.toNat + 256 * high.toNat)) % 2 ^ 32 =
        sum + (low.toNat + 256 * high.toNat) := Nat.mod_eq_of_lt (by omega)
    rw [hmod] at ih
    rw [sumWords, hmod, ih (by omega)]
    simp only [weigh, Bool.not_false, Bool.not_true, Bool.false_eq_true, if_false, if_true]
    ring
  | case2 last sum =>
    have hlast := last.toNat_lt
    rw [List.length_singleton] at h
    rw [sumWords, Nat.mod_eq_of_lt (by omega)]
    rfl
  | case3 sum => rfl

lemma onesSum_spec (h : sum < 2 ^ 16) :
    Same (onesSum bytes sum) (sum + weigh false bytes) ∧ onesSum bytes sum < 2 ^ 16 := by
  induction bytes, sum using onesSum.induct with
  | case1 low high bytes sum ih =>
    have hlow := low.toNat_lt
    have hhigh := high.toNat_lt
    obtain ⟨hadd, hlt⟩ := addCarry_spec (b := low.toNat + 256 * high.toNat) (by omega) h
    obtain ⟨hsame, hres⟩ := ih hlt
    refine ⟨hsame.trans ?_, hres⟩
    have hall := hadd.add (Same.rfl (a := weigh false bytes))
    simp only [weigh, Bool.not_false, Bool.not_true, Bool.false_eq_true, if_false, if_true]
    rwa [← add_assoc low.toNat, ← add_assoc sum]
  | case2 last sum =>
    have hlast := last.toNat_lt
    exact addCarry_spec (by omega) h
  | case3 sum => exact ⟨Same.rfl, h⟩

lemma computeChecksum_spec (h : bytes.length ≤ 65536) :
    Same (computeChecksum bytes) (weigh false bytes) ∧ computeChecksum bytes < 2 ^ 16 := by
  have hsum := @sumWords_eq 0 bytes (by omega)
  rw [zero_add] at hsum
  unfold computeChecksum
  rw [hsum]
  exact fold_spec _

lemma nodeSum_spec {node : DataNode} (hn : n ≤ node.used - offset) (hle : n ≤ 65536) :
    Same (nodeSum node offset n)
      (weigh (decide ((offset + node.offset) % 2 = 1)) ((node.data.drop offset).take n)) ∧
      nodeSum node offset n ≤ 65535 * n := by
  have hlen : ((node.data.drop offset).take n).length = n := by
    rw [List.length_take, List.length_drop]
    exact Nat.min_eq_left hn
  obtain ⟨hsame, hlt⟩ := computeChecksum_spec (hlen.trans_le hle)
  have hempty : n = 0 → computeChecksum ((node.data.drop offset).take n) = 0 := by
    intro hzero
    subst hzero
    exact hsame.zero.2 rfl
  unfold nodeSum
  dsimp only
  split_ifs with hodd
  · rw [decide_eq_true hodd]
    refine ⟨(hsame.swapInt16 hlt).trans (same_weigh false _).symm, ?_⟩
    have hswap := swapInt16_lt hlt
    have hzero := (same_swapInt16 hlt).zero
    omega
  · rw [decide_eq_false hodd]
    exact ⟨hsame, by omega⟩

lemma sumNodes_spec (hchain : Chained start nodes stop) (hlt : 0 < size)
    (hstop : start + offset + size ≤ stop) (hbound : sum + 65535 * size < 2 ^ 32)
    (hsize : size ≤ 65536)
    (hoffset : ∀ node ∈ nodes.head?, offset ≤ node.used) :
    ∃ res, sumNodes nodes offset size sum = some res ∧
      Same res (sum + weigh (decide ((start + offset) % 2 = 1))
        (((nodes.map DataNode.data).flatten.drop offset).take size)) := by
  induction nodes generalizing start offset size sum with
  | nil =>
    have heq : start = stop := hchain
    omega
  | cons node nodes ih =>
    obtain ⟨hstart, hrest⟩ := hchain
    have hle : offset ≤ node.data.length := hoffset node rfl
    obtain ⟨hpart, hpartle⟩ := @nodeSum_spec _ offset node
      (Nat.min_le_right size _) (by omega)
    have hmod : (sum + nodeSum node offset (min size (node.used - offset))) % 2 ^ 32 =
        sum + nodeSum node offset (min size (node.used - offset)) :=
      Nat.mod_eq_of_lt (by omega)
    have hsplit : (((node :: nodes).map DataNode.data).flatten.drop offset).take size =
        (node.data.drop offset).take (min size (node.used - offset)) ++
          ((nodes.map DataNode.data).flatten.drop 0).take
            (size - min size (node.used - offset)) := by
      rw [List.map_cons, List.flatten_cons, List.drop_append_of_le_length hle, List.take_append,
        List.length_drop, List.drop_zero]
      unfold DataNode.used
      congr 1
      · rcases le_total size (node.data.length - offset) with h | h
        · rw [min_eq_left h]
        · rw [min_eq_right h, List.take_of_length_le (by rwa [List.length_drop]),
            List.take_of_length_le (by rw [List.length_drop])]
      · congr 1
        omega
    rw [hstart, add_comm offset] at hpart
    rw [sumNodes, hmod, hsplit]
    split_ifs with hdone
    · -- this was the last node
      rw [hdone, List.take_zero, List.append_nil]
      exact ⟨_, rfl, Same.rfl.add hpart⟩
    · have hused : node.data.length = node.used := rfl
      obtain ⟨res, hres, hsame⟩ := @ih (sum + nodeSum node offset (min size (node.used - offset)))
        (size - min size (node.used - offset)) 0 _
        hrest (by omega) (by omega) (by omega) (by omega) (fun _ _ => Nat.zero_le _)
      refine ⟨res, hres, hsame.trans ?_⟩
      rw [weigh_append, ← add_assoc]
      refine (Same.rfl.add hpart).add ?_
      have hlen : ((node.data.drop offset).take (min size (node.used - offset))).length =
          node.used - offset := by
        rw [List.length_take, List.length_drop]
        omega
      have hparity : (decide ((start + offset) % 2 = 1) ^^ decide ((node.used - offset) % 2 = 1)) =
          decide ((start + node.used + 0) % 2 = 1) := by
        rw [Bool.eq_iff_iff, Bool.xor_iff_ne, ne_eq, Bool.eq_iff_iff]
        simp only [decide_eq_true_eq]
        omega
      rw [hlen, hparity]
      exact Same.rfl

lemma getNodeAtOffset_spec (hchain : Chained start nodes stop) (hle : start ≤ offset)
    (hlt : offset < stop) :
    ∃ node rest, getNodeAtOffset nodes offset = node :: rest ∧
      Chained node.offset (node :: rest) stop ∧ node.offset ≤ offset ∧
      offset - node.offset ≤ node.used ∧
      ((node :: rest).map DataNode.data).flatten.drop (offset - node.offset) =
        (nodes.map DataNode.data).flatten.drop (offset - start) := by
  induction nodes generalizing start with
  | nil =>
    have heq : start = stop := hchain
    omega
  | cons node nodes ih =>
    obtain ⟨hstart, hrest⟩ := hchain
    rw [getNodeAtOffset]
    split_ifs with hbehind
    · obtain ⟨next, rest, hget, hnext, hnextle, hused, hdrop⟩ := ih hrest (by omega)
      refine ⟨next, rest, hget, hnext, hnextle, hused, hdrop.trans ?_⟩
      have hlen : offset - start = node.data.length + (offset - (start + node.used)) := by
        have hused : node.data.length = node.used := rfl
        omega
      rw [List.map_cons, List.flatten_cons, hlen, ← List.drop_drop, List.drop_left]
    · refine ⟨node, nodes, rfl, ⟨rfl, hstart ▸ hrest⟩, by omega, by omega, by rw [hstart]⟩

end

/-- The checksum of a part of a buffer is that of its bytes, whatever nodes they are in. -/
theorem checksumData_right (buffer : Buffer) {offset size : ℕ} (finalize : Bool)
    (heven : offset % 2 = 0) (hpos : 0 < size) (hle : offset + size ≤ buffer.size)
    (hmax : size ≤ 65536) :
    let bytes := (buffer.bytes.drop offset).take size
    checksumData buffer offset size finalize =
        .ok (if finalize then 2 ^ 16 - 1 - onesSum bytes 0 else onesSum bytes 0) ∧
      computeChecksum bytes = onesSum bytes 0 := by
  intro bytes
  obtain ⟨hones, honeslt⟩ := @onesSum_spec 0 bytes (by decide)
  rw [zero_add] at hones
  obtain ⟨node, rest, hget, hchain, hstart, hused, hdrop⟩ :=
    getNodeAtOffset_spec buffer.chained (Nat.zero_le offset) (by omega)
  obtain ⟨sum, hsum, hsame⟩ := @sumNodes_spec 0 _ (offset - node.offset) _ _ _ hchain hpos
    (by omega) (by omega) hmax (by simpa using hused)
  have hpos : node.offset + (offset - node.offset) = offset := by omega
  rw [hpos, zero_add, hdrop, Nat.sub_zero, decide_eq_false (by omega)] at hsame
  have hfold : fold sum = onesSum bytes 0 :=
    ((fold_spec sum).1.trans (hsame.trans hones.symm)).eq (fold_spec sum).2 honeslt
  have hbytes : bytes.length ≤ 65536 := (List.length_take_le _ _).trans hmax
  obtain ⟨hcompute, hcomputelt⟩ := computeChecksum_spec hbytes
  refine ⟨?_, (hcompute.trans hones.symm).eq hcomputelt honeslt⟩
  unfold checksumData
  rw [if_neg (by omega), hget]
  dsimp only
  rw [hsum]
  dsimp only
  rw [hfold]

/-- Three bytes in two nodes, the first of which ends at an odd position -/
def oddBuffer : Buffer := ⟨[⟨0, [1]⟩, ⟨1, [2, 3]⟩], 3, rfl, rfl, rfl⟩

theorem checksumData_right_oddBuffer : checksumData oddBuffer 0 3 false = .ok 516 := by
  rw [(checksumData_right oddBuffer false rfl (by decide) (by decide) (by decide)).1]
  rfl

/-- There is no checksum of no bytes. -/
theorem checksumData_not_right : ¬∀ (buffer : Buffer) (offset size : ℕ) (finalize : Bool),
    offset % 2 = 0 → offset + size ≤ buffer.size → size ≤ 65536 →
    let bytes := (buffer.bytes.drop offset).take size
    checksumData buffer offset size finalize =
        .ok (if finalize then 2 ^ 16 - 1 - onesSum bytes 0 else onesSum bytes 0) ∧
      computeChecksum bytes = onesSum bytes 0 := by
  intro hall
  have h := (hall oddBuffer 0 0 false rfl (by decide) (by decide)).1
  rw [checksumData, if_pos (Or.inr rfl)] at h
  cases h

end Haiku.NetBuffer
