import Mathlib.Algebra.Order.Group.Abs
import Haiku.TCP.BufferQueue

/-!
# The round trip time and the retransmit timeout

`tcp_now()`, `tcp_diff_timestamp()` and `_UpdateRoundTripTime()` of
`src/add-ons/kernel/network/protocols/tcp/TCPEndpoint.cpp`. An `int32` that overflows has no value.
-/

namespace Haiku.TCP

def kTimestampFactor : ℕ := 1024

def tcpNow (systemTime : ℕ) : BitVec 32 := BitVec.ofNat 32 (systemTime / kTimestampFactor)

def tcpDiffTimestamp (now base : BitVec 32) : BitVec 32 :=
  if now > base then now - base else now + 0xffffffff - base

/-- The value of an `int32` expression, unless it overflows -/
def int32 (n : ℤ) : Option ℤ := if -0x80000000 ≤ n ∧ n < 0x80000000 then some n else none

structure RoundTrip where
  roundTripTime : ℤ
  roundTripDeviation : ℤ
  retransmitTimeout : ℤ

namespace RoundTrip

/-- The constructor; `TCP_INITIAL_RTT` is two seconds. -/
def init : RoundTrip := ⟨2000000 / kTimestampFactor, 2000000 / kTimestampFactor, 2000000⟩

/-- `_UpdateRoundTripTime()` -/
def update (s : RoundTrip) (roundTripTime : ℤ) : Option RoundTrip := do
  let rtt ← int32 (roundTripTime - s.roundTripTime.tdiv 8)
  let time ← int32 (s.roundTripTime + rtt)
  let rtt ← int32 (if rtt < 0 then -rtt else rtt)
  let rtt ← int32 (rtt - s.roundTripDeviation.tdiv 4)
  let deviation ← int32 (s.roundTripDeviation + rtt)
  let sum ← int32 (time.tdiv 4 + deviation)
  let timeout ← int32 (sum.tdiv 2 * kTimestampFactor)
  some ⟨time, deviation, timeout⟩

end RoundTrip

/-- An acknowledge of data that comes at the time `now`, and echoes the timestamp of a segment sent
at most `2^24` ticks ago. -/
structure Echo where
  sent : ℕ
  now : ℕ
  sent_le : sent ≤ now
  recent : now / kTimestampFactor ≤ sent / kTimestampFactor + 2 ^ 24

namespace Echo

def elapsed (a : Echo) : ℕ := a.now / kTimestampFactor - a.sent / kTimestampFactor

/-- What `_Acknowledged()` takes for the time that has passed -/
def difference (a : Echo) : BitVec 32 := tcpDiffTimestamp (tcpNow a.now) (tcpNow a.sent)

end Echo

/-- The part of `_Acknowledged()` that is about the round trip time -/
def RoundTrip.acknowledged (s : RoundTrip) (a : Echo) : Option RoundTrip :=
  s.update a.difference.toInt

/-- In every state that the acknowledges lead to the timeout is positive, and each of them finds the
ticks that have passed and makes no `int32` overflow. -/
def RoundTrip.Right : RoundTrip → List Echo → Prop
  | s, [] => 0 < s.retransmitTimeout
  | s, a :: echoes => 0 < s.retransmitTimeout ∧ a.difference.toNat = a.elapsed ∧
      ∃ s', s.acknowledged a = some s' ∧ s'.Right echoes

/-- The timestamp of now is greater than the one echoed: neither is it the same tick, nor have the
timestamps wrapped around in between. -/
def Echo.Ahead (a : Echo) : Prop := tcpNow a.sent < tcpNow a.now

/-- Twice the timeout of the smoothed times is less than `2^22` ticks, so that it has less than
`2^31` microseconds. -/
def RoundTrip.Fits (s : RoundTrip) (elapsed : ℤ) : Prop :=
  (s.roundTripTime - s.roundTripTime / 8 + elapsed) / 4 +
    (s.roundTripDeviation - s.roundTripDeviation / 4 + |elapsed - s.roundTripTime / 8|) < 2 ^ 22

/-- All acknowledges come in a later tick before the timestamps wrap around, and none makes the
timeout too large. -/
def RoundTrip.Meets : RoundTrip → List Echo → Prop
  | _, [] => True
  | s, a :: echoes => a.Ahead ∧ s.Fits a.elapsed ∧ ∀ s', s.acknowledged a = some s' → s'.Meets echoes

/-! ## The difference of two timestamps -/

lemma difference_eq_iff (a : Echo) : a.difference.toNat = a.elapsed ↔ a.Ahead := by
  have hle := Nat.div_le_div_right (c := kTimestampFactor) a.sent_le
  have hrecent := a.recent
  unfold Echo.difference Echo.Ahead Echo.elapsed tcpDiffTimestamp tcpNow
  generalize a.now / kTimestampFactor = now at hle hrecent ⊢
  generalize a.sent / kTimestampFactor = sent at hle hrecent ⊢
  have hmod : (now - sent) % 2 ^ 32 = now - sent := Nat.mod_eq_of_lt (by omega)
  split_ifs with hahead
  · refine iff_of_true ?_ hahead
    rw [BitVec.toNat_sub, BitVec.toNat_ofNat, BitVec.toNat_ofNat]
    omega
  · refine iff_of_false ?_ hahead
    rw [BitVec.toNat_sub, BitVec.toNat_add, BitVec.toNat_ofNat, BitVec.toNat_ofNat]
    show ¬ (2 ^ 32 - sent % 2 ^ 32 + (now % 2 ^ 32 + 0xffffffff) % 2 ^ 32) % 2 ^ 32 = now - sent
    omega

lemma toInt_difference {a : Echo} (h : a.difference.toNat = a.elapsed) :
    a.difference.toInt = a.elapsed ∧ a.elapsed ≤ 2 ^ 24 := by
  have hrecent := a.recent
  have hle : a.elapsed ≤ 2 ^ 24 := by
    unfold Echo.elapsed
    omega
  refine ⟨?_, hle⟩
  rw [BitVec.toInt_eq_toNat_of_lt (by omega), h]

lemma elapsed_pos {a : Echo} (h : a.Ahead) : 0 < a.elapsed := by
  have hle := Nat.div_le_div_right (c := kTimestampFactor) a.sent_le
  unfold Echo.elapsed
  rcases Nat.eq_or_lt_of_le hle with heq | hlt
  · unfold Echo.Ahead tcpNow at h
    rw [heq] at h
    exact absurd h (BitVec.lt_irrefl _)
  · omega

/-! ## The smoothed times -/

namespace RoundTrip

/-- An eighth of the round trip time is at least a tick, and the deviation is not forgotten. -/
structure Ok (s : RoundTrip) : Prop where
  time_ge : 8 ≤ s.roundTripTime
  time_lt : s.roundTripTime < 2 ^ 25
  deviation_ge : 3 ≤ s.roundTripDeviation
  deviation_lt : s.roundTripDeviation < 2 ^ 23
  timeout_pos : 0 < s.retransmitTimeout

lemma init_ok : init.Ok := by constructor <;> decide

lemma int32_of_mem {n : ℤ} (hlo : -0x80000000 ≤ n) (hhi : n < 0x80000000) : int32 n = some n :=
  if_pos ⟨hlo, hhi⟩

/-- What `_UpdateRoundTripTime()` makes of the times, where it does not overflow -/
def smoothed (s : RoundTrip) (elapsed : ℤ) : RoundTrip where
  roundTripTime := s.roundTripTime - s.roundTripTime / 8 + elapsed
  roundTripDeviation :=
    s.roundTripDeviation - s.roundTripDeviation / 4 + |elapsed - s.roundTripTime / 8|
  retransmitTimeout := ((s.roundTripTime - s.roundTripTime / 8 + elapsed) / 4 +
    (s.roundTripDeviation - s.roundTripDeviation / 4 + |elapsed - s.roundTripTime / 8|)) / 2 * 1024

variable {s : RoundTrip} {e : ℤ}

lemma Ok.update_eq (h : s.Ok) (hpos : 0 < e) (hle : e ≤ 2 ^ 24) :
    s.update e = (int32 (s.smoothed e).retransmitTimeout).map fun _ => s.smoothed e := by
  have ⟨htime, htime', hdeviation, hdeviation', _⟩ := h
  have habs : (if e - s.roundTripTime / 8 < 0 then -(e - s.roundTripTime / 8)
      else e - s.roundTripTime / 8) = |e - s.roundTripTime / 8| := by
    split_ifs with hneg
    · exact (abs_of_neg hneg).symm
    · exact (abs_of_nonneg (not_lt.1 hneg)).symm
  have hbound : |e - s.roundTripTime / 8| ≤ 2 ^ 24 := abs_le.2 ⟨by omega, by omega⟩
  have hnonneg := abs_nonneg (e - s.roundTripTime / 8)
  unfold update smoothed
  rw [Int.tdiv_eq_ediv_of_nonneg (by omega), Int.tdiv_eq_ediv_of_nonneg (by omega),
    int32_of_mem (by omega) (by omega), Option.bind_eq_bind, Option.bind_some]
  have hsum : s.roundTripTime + (e - s.roundTripTime / 8) =
      s.roundTripTime - s.roundTripTime / 8 + e := by ring
  rw [hsum, habs]
  generalize |e - s.roundTripTime / 8| = deviation at hbound hnonneg ⊢
  have hsum' : s.roundTripDeviation + (deviation - s.roundTripDeviation / 4) =
      s.roundTripDeviation - s.roundTripDeviation / 4 + deviation := by ring
  dsimp only
  rw [int32_of_mem (by omega) (by omega), Option.bind_some,
    int32_of_mem (by omega) (by omega), Option.bind_some,
    int32_of_mem (by omega) (by omega), Option.bind_some, hsum',
    int32_of_mem (by omega) (by omega), Option.bind_some,
    Int.tdiv_eq_ediv_of_nonneg (by omega), int32_of_mem (by omega) (by omega), Option.bind_some,
    Int.tdiv_eq_ediv_of_nonneg (by omega)]
  show (int32 (_ * 1024)).bind _ = _
  unfold int32
  split_ifs
  · rfl
  · rfl

lemma Ok.fits_iff (h : s.Ok) (hpos : 0 < e) (hle : e ≤ 2 ^ 24) :
    s.Fits e ↔ (s.update e).isSome := by
  have ⟨htime, htime', hdeviation, hdeviation', _⟩ := h
  have hnonneg := abs_nonneg (e - s.roundTripTime / 8)
  rw [h.update_eq hpos hle]
  unfold Fits smoothed int32
  generalize |e - s.roundTripTime / 8| = deviation at hnonneg ⊢
  dsimp only
  split_ifs with hfits
  · simp only [Option.map_some, Option.isSome_some, iff_true]
    omega
  · simp only [Option.map_none, Option.isSome_none, Bool.false_eq_true, iff_false]
    omega

lemma Ok.step (h : s.Ok) (hpos : 0 < e) (hle : e ≤ 2 ^ 24) {s' : RoundTrip}
    (hs' : s.update e = some s') : s'.Ok := by
  have ⟨htime, htime', hdeviation, hdeviation', _⟩ := h
  have hnonneg := abs_nonneg (e - s.roundTripTime / 8)
  have hfits := (h.fits_iff hpos hle).2 (hs' ▸ rfl)
  rw [h.update_eq hpos hle, Option.map_eq_some_iff] at hs'
  have ⟨_, _, heq⟩ := hs'
  rw [← heq]
  unfold Fits at hfits
  unfold smoothed
  generalize |e - s.roundTripTime / 8| = deviation at hnonneg hfits ⊢
  constructor <;> dsimp only <;> omega

lemma Ok.right_iff (h : s.Ok) (echoes : List Echo) : s.Right echoes ↔ s.Meets echoes := by
  induction echoes generalizing s with
  | nil => exact iff_of_true h.timeout_pos trivial
  | cons a echoes ih =>
    show (_ ∧ _ ∧ _) ↔ (_ ∧ _ ∧ _)
    rw [difference_eq_iff]
    by_cases hahead : a.Ahead
    · obtain ⟨hdiff, hle⟩ := toInt_difference ((difference_eq_iff a).2 hahead)
      have hpos : (0 : ℤ) < a.elapsed := by exact_mod_cast elapsed_pos hahead
      have hle : (a.elapsed : ℤ) ≤ 2 ^ 24 := by exact_mod_cast hle
      unfold acknowledged
      rw [hdiff, h.fits_iff hpos hle, Option.isSome_iff_exists]
      constructor
      · rintro ⟨_, _, s', hs', hright⟩
        refine ⟨hahead, ⟨s', hs'⟩, ?_⟩
        intro t ht
        have heq : s' = t := Option.some.inj (hs'.symm.trans ht)
        exact heq ▸ (ih (h.step hpos hle hs')).1 hright
      · rintro ⟨_, ⟨s', hs'⟩, hmeets⟩
        exact ⟨h.timeout_pos, hahead, s', hs', (ih (h.step hpos hle hs')).2 (hmeets s' hs')⟩
    · exact iff_of_false (fun hright => hahead hright.2.1) fun hmeets => hahead hmeets.1

def sameTick : Echo := ⟨5000, 5000, by decide, by decide⟩

end RoundTrip

end Haiku.TCP
