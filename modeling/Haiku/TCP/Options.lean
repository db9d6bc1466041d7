import Mathlib.Algebra.Order.Group.Nat
import Mathlib.Data.UInt

/-!
# Reading TCP options

`process_options()` of `src/add-ons/kernel/network/protocols/tcp/tcp.cpp`, which
`tcp_receive_data()` calls. The memory from the first option on is read byte by byte, whether it
belongs to the options or not. Every position that is read is noted, and every option whose value
is taken.
-/

namespace Haiku.TCP.Options

def optionNop : UInt8 := 1

def optionMaxSegmentSize : UInt8 := 2

def optionWindowShift : UInt8 := 3

def optionSackPermitted : UInt8 := 4

def optionTimestamp : UInt8 := 8

/-- `kMaxOptionSize` -/
def maxOptionSize : ℕ := 64 - 20

/-- What `tcp_segment_header` gets from options -/
structure SegmentHeader where
  hasTimestamps : Bool
  hasWindowScale : Bool
  sackPermitted : Bool
  maxSegmentSize : ℕ
  windowShift : UInt8
  timestampValue : List UInt8
  timestampReply : ℕ

abbrev Memory := ℕ → UInt8

/-- `ntohs()` and `ntohl()` of the bytes at a position -/
def bigEndian (m : Memory) (pos : ℕ) : ℕ → ℕ
  | 0 => 0
  | n + 1 => 256 * bigEndian m pos n + (m (pos + n)).toNat

/-- What has been parsed, the positions that were read, and the options that were used -/
structure Parsed where
  segment : SegmentHeader
  reads : List ℕ
  used : List (ℕ × ℕ)

/-- Takes the value of an option of a fixed length; `size - length >= 0` always holds. -/
def Parsed.use (p : Parsed) (m : Memory) (pos length : ℕ) (segment : SegmentHeader) : Parsed :=
  if (m (pos + 1)).toNat = length then
    ⟨segment, p.reads ++ (List.range length).map (pos + ·), p.used ++ [(pos, length)]⟩
  else { p with reads := p.reads ++ [pos, pos + 1] }

/-- The `switch` over the kind of an option -/
def Parsed.option (p : Parsed) (m : Memory) (pos : ℕ) : Parsed :=
  let kind := m pos
  if kind = optionMaxSegmentSize then
    p.use m pos 4 { p.segment with maxSegmentSize := bigEndian m (pos + 2) 2 }
  else if kind = optionWindowShift then
    p.use m pos 3 { p.segment with hasWindowScale := true, windowShift := m (pos + 2) }
  else if kind = optionTimestamp then
    p.use m pos 10 { p.segment with
      hasTimestamps  := true
      timestampValue := (List.range 4).map fun i => m (pos + 2 + i)
      timestampReply := bigEndian m (pos + 6) 4 }
  else if kind = optionSackPermitted then p.use m pos 2 { p.segment with sackPermitted := true }
  else { p with reads := p.reads ++ [pos, pos + 1] }

/-- The loop of `process_options()`; the size has 64 bits. -/
def processLoop (m : Memory) : ℕ → Parsed → ℕ → ℕ → Option Parsed
  | 0, _, _, _ => none
  | fuel + 1, p, pos, size =>
    if size = 0 then some p
    else if m pos ≤ optionNop then
      processLoop m fuel { p with reads := p.reads ++ [pos] } (pos + 1) (size - 1)
    else
      let length := (m (pos + 1)).toNat
      let p := p.option m pos
      if length = 0 then some p
      else processLoop m fuel p (pos + length) ((size + 2 ^ 64 - length) % 2 ^ 64)

/-- `process_options()`: `direct` is what `direct_access()` gives, and `copied` the memory from
`optionsBuffer` on after `read()`. -/
def processOptions (direct : Option Memory) (copied : Memory) (segment : SegmentHeader)
    (size fuel : ℕ) : Option Parsed :=
  if size = 0 then some ⟨segment, [], []⟩
  else match direct with
    | some option => processLoop option fuel ⟨segment, [], []⟩ 0 size
    | none =>
      -- ignoring TCP options larger than expected
      if size > maxOptionSize then some ⟨segment, [], []⟩
      else processLoop copied fuel ⟨segment, [], []⟩ 0 size

def headerLength (field : BitVec 4) : ℕ := field.toNat <<< 2

/-! ## Options that fit -/

/-- The options in the `size` bytes at `pos` lie within these, up to one of length 0. -/
inductive Fits (m : Memory) : ℕ → ℕ → Prop
  | done {pos : ℕ} : Fits m pos 0
  | byte {pos size : ℕ} : m pos ≤ optionNop → Fits m (pos + 1) size → Fits m pos (size + 1)
  | stop {pos size : ℕ} : ¬m pos ≤ optionNop → 2 ≤ size → (m (pos + 1)).toNat = 0 →
    Fits m pos size
  | option {pos size : ℕ} : ¬m pos ≤ optionNop → 2 ≤ size → (m (pos + 1)).toNat ≠ 0 →
    (m (pos + 1)).toNat ≤ size → Fits m (pos + (m (pos + 1)).toNat) (size - (m (pos + 1)).toNat) →
    Fits m pos size

/-- Nothing behind the `stop` is read or used. -/
structure Parsed.Within (p : Parsed) (stop : ℕ) : Prop where
  reads : ∀ x ∈ p.reads, x < stop
  used : ∀ o ∈ p.used, o.1 + o.2 ≤ stop

section
variable {m : Memory} {p res : Parsed} {pos size stop length fuel : ℕ} {segment : SegmentHeader}

lemma subset_reads_use : p.reads ⊆ (p.use m pos length segment).reads := by
  unfold Parsed.use
  split_ifs
  · exact List.subset_append_left _ _
  · exact List.subset_append_left _ _

lemma mem_reads_use (hlen : 2 ≤ length) : pos + 1 ∈ (p.use m pos length segment).reads := by
  unfold Parsed.use
  split_ifs
  · exact List.mem_append_right _ (List.mem_map.2 ⟨1, List.mem_range.2 (by omega), rfl⟩)
  · simp

lemma Parsed.Within.use (h : p.Within stop) (hstop : pos + 2 ≤ stop)
    (hle : (m (pos + 1)).toNat = length → pos + length ≤ stop) :
    (p.use m pos length segment).Within stop := by
  unfold Parsed.use
  split_ifs with hlen
  · have hfit := hle hlen
    constructor
    · intro x hx
      rcases List.mem_append.1 hx with hx | hx
      · exact h.reads x hx
      · obtain ⟨i, hi, rfl⟩ := List.mem_map.1 hx
        rw [List.mem_range] at hi
        omega
    · intro o ho
      rcases List.mem_append.1 ho with ho | ho
      · exact h.used o ho
      · rw [List.mem_singleton.1 ho]
        exact hfit
  · refine ⟨fun x hx => ?_, h.used⟩
    rcases List.mem_append.1 hx with hx | hx
    · exact h.reads x hx
    · simp only [List.mem_cons, List.not_mem_nil, or_false] at hx
      omega

lemma option_cases (C : Parsed → Prop)
    (huse : ∀ length segment, 2 ≤ length → C (p.use m pos length segment))
    (hother : C { p with reads := p.reads ++ [pos, pos + 1] }) : C (p.option m pos) := by
  unfold Parsed.option
  dsimp only
  split_ifs
  · exact huse 4 _ (by decide)
  · exact huse 3 _ (by decide)
  · exact huse 10 _ (by decide)
  · exact huse 2 _ (by decide)
  · exact hother

lemma Parsed.Within.option (h : p.Within stop) (hstop : pos + 2 ≤ stop)
    (hle : pos + (m (pos + 1)).toNat ≤ stop) : (p.option m pos).Within stop := by
  refine option_cases (C := fun p' => p'.Within stop) ?_ ?_
  · intro length segment _
    exact h.use hstop fun heq => heq ▸ hle
  · refine ⟨fun x hx => ?_, h.used⟩
    rcases List.mem_append.1 hx with hx | hx
    · exact h.reads x hx
    · simp only [List.mem_cons, List.not_mem_nil, or_false] at hx
      omega

lemma reads_option : p.reads ⊆ (p.option m pos).reads ∧ pos + 1 ∈ (p.option m pos).reads := by
  refine option_cases (C := fun p' => p.reads ⊆ p'.reads ∧ pos + 1 ∈ p'.reads) ?_ ?_
  · exact fun length segment hlen => ⟨subset_reads_use, mem_reads_use hlen⟩
  · exact ⟨List.subset_append_left _ _, by simp⟩

lemma Fits.processLoop (h : Fits m pos size) (hp : p.Within stop) (hstop : pos + size = stop)
    (hsize : size < 2 ^ 64) :
    ∃ fuel res, processLoop m fuel p pos size = some res ∧ res.Within stop := by
  induction h generalizing p with
  | done => exact ⟨1, p, rfl, hp⟩
  | @byte pos size hkind _ ih =>
    have hread : Parsed.Within { p with reads := p.reads ++ [pos] } stop := by
      refine ⟨fun x hx => ?_, hp.used⟩
      rcases List.mem_append.1 hx with hx | hx
      · exact hp.reads x hx
      · rw [List.mem_singleton.1 hx]
        omega
    obtain ⟨fuel, res, hres, hwithin⟩ := ih hread (by omega) (by omega)
    refine ⟨fuel + 1, res, ?_, hwithin⟩
    rw [Options.processLoop, if_neg (Nat.succ_ne_zero _), if_pos hkind]
    exact hres
  | @stop pos size hkind htwo hzero =>
    refine ⟨1, p.option m pos, ?_, hp.option (by omega) (by omega)⟩
    rw [Options.processLoop, if_neg (by omega), if_neg hkind]
    exact if_pos hzero
  | @option pos size hkind htwo hne hle _ ih =>
    have hmod : (size + 2 ^ 64 - (m (pos + 1)).toNat) % 2 ^ 64 = size - (m (pos + 1)).toNat := by
      omega
    obtain ⟨fuel, res, hres, hwithin⟩ := ih (p := p.option m pos) (hp.option (by omega) (by omega))
      (by omega) (by omega)
    refine ⟨fuel + 1, res, ?_, hwithin⟩
    rw [Options.processLoop, if_neg (by omega), if_neg hkind]
    dsimp only
    rw [if_neg hne, hmod]
    exact hres

lemma reads_processLoop (h : processLoop m fuel p pos size = some res) :
    p.reads ⊆ res.reads ∧ (size ≠ 0 → ∃ x ∈ res.reads, pos ≤ x) := by
  induction fuel generalizing p pos size with
  | zero => cases h
  | succ fuel ih =>
    rw [processLoop] at h
    split_ifs at h with hzero hkind
    · cases h
      exact ⟨fun x hx => hx, fun hne => absurd hzero hne⟩
    · obtain ⟨hsub, _⟩ := ih h
      exact ⟨fun x hx => hsub (List.mem_append_left _ hx),
        fun _ => ⟨pos, hsub (List.mem_append_right _ (List.mem_singleton_self _)), le_rfl⟩⟩
    · obtain ⟨hsub, hread⟩ := @reads_option m p pos
      dsimp only at h
      split_ifs at h with hlen
      · cases h
        exact ⟨hsub, fun _ => ⟨pos + 1, hread, Nat.le_succ _⟩⟩
      · obtain ⟨hsub', _⟩ := ih h
        exact ⟨fun x hx => hsub' (hsub hx), fun _ => ⟨pos + 1, hsub' hread, Nat.le_succ _⟩⟩

lemma fits_of_processLoop (h : processLoop m fuel p pos size = some res)
    (hreads : ∀ x ∈ res.reads, x < stop) (hstop : pos + size = stop) (hsize : size < 2 ^ 64) :
    Fits m pos size := by
  induction fuel generalizing p pos size with
  | zero => cases h
  | succ fuel ih =>
    rw [processLoop] at h
    split_ifs at h with hzero hkind
    · subst hzero
      exact .done
    · obtain ⟨size, rfl⟩ := Nat.exists_eq_succ_of_ne_zero hzero
      exact .byte hkind (ih h (by omega) (by omega))
    · obtain ⟨_, hread⟩ := @reads_option m p pos
      dsimp only at h
      split_ifs at h with hlen
      · cases h
        have hlt := hreads _ hread
        exact .stop hkind (by omega) hlen
      · have hlt := hreads _ ((reads_processLoop h).1 hread)
        by_cases hle : (m (pos + 1)).toNat ≤ size
        · have hmod : (size + 2 ^ 64 - (m (pos + 1)).toNat) % 2 ^ 64 =
              size - (m (pos + 1)).toNat := by
            omega
          rw [hmod] at h
          exact .option hkind (by omega) hlen hle (ih h (by omega) (by omega))
        · -- the size wraps around
          have hbyte := (m (pos + 1)).toNat_lt
          obtain ⟨x, hx, hge⟩ := (reads_processLoop h).2 (by omega)
          have hlt' := hreads x hx
          omega

lemma headerLength_le (field : BitVec 4) : headerLength field ≤ 60 := by
  have hlt := field.isLt
  unfold headerLength
  rw [Nat.shiftLeft_eq]
  omega

lemma processOptions_eq {direct : Option Memory} {copied : Memory} (hne : size ≠ 0)
    (hle : size ≤ maxOptionSize) : processOptions direct copied segment size fuel =
      processLoop (direct.getD copied) fuel ⟨segment, [], []⟩ 0 size := by
  unfold processOptions
  rw [if_neg hne]
  cases direct with
  | some option => rfl
  | none => exact if_neg (by omega)

end

/-- `process_options()` comes to an end, reads only options, and uses only those that are all
there. -/
def Safe (direct : Option Memory) (copied : Memory) (segment : SegmentHeader) (size : ℕ) : Prop :=
  ∃ fuel res, processOptions direct copied segment size fuel = some res ∧ res.Within size

end Haiku.TCP.Options
