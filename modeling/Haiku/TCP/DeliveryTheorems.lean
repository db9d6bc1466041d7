import Haiku.TCP.BufferQueueTheorems
import Haiku.TCP.SendQueueTheorems

/-!
# From the send queue to the receive queue

The send queue of an endpoint and the receive queue of its peer, which write to and read from a
network that loses, duplicates, delays and reorders segments and acknowledges. What is sent again may
be cut in another way.
-/

namespace Haiku.TCP

open Lib

variable {α : Type}

/-- The two queues, and all that was ever sent, each with the position in the stream that its number
stands for. Nobody looks at these positions. -/
structure Connection (α : Type) where
  sender : Sender α
  receiver : Receiver α
  segments : List (ℕ × NetBuffer α)
  acknowledges : List (ℕ × Sequence)

inductive Connection.Action (α : Type)
  /-- the next bytes of the stream are put into the send queue -/
  | write (bytes : ℕ)
  /-- a segment is sent, maybe again -/
  | send (sequence : Sequence) (bytes : ℕ)
  /-- a segment arrives -/
  | deliver (position : ℕ) (segment : NetBuffer α)
  | read (bytes : ℕ) (remove : Bool)
  /-- the receiver sends `NextSequence()` -/
  | acknowledge
  /-- an acknowledge arrives -/
  | removeUntil (position : ℕ) (acknowledge : Sequence)

namespace Connection

def init (initial : Sequence) : Connection α := ⟨.init initial, .init initial, [], []⟩

/-- The bytes that are written next -/
def next (stream : ℕ → α) (c : Connection α) (bytes : ℕ) : List α :=
  slice stream c.sender.stream.length (c.sender.stream.length + bytes)

/-- A step does not return if an assertion fails, or there is a panic. -/
def step [DecidableEq α] (stream : ℕ → α) (c : Connection α) : Action α → Option (Connection α)
  | .write bytes => (c.sender.step (.add (c.next stream bytes))).map ({ c with sender := · })
  | .send sequence bytes =>
    match c.sender.step (.get sequence bytes), c.sender.queue.getFrom sequence bytes with
    | some _, .ok data =>
      some { c with segments := (c.sender.position sequence, ⟨sequence, data⟩) :: c.segments }
    | _, _ => none
  | .deliver position segment =>
    if (position, segment) ∈ c.segments then
      (TCP.step c.receiver (.add segment.data segment.sequence)).map ({ c with receiver := · })
    else none
  | .read bytes remove =>
    (TCP.step c.receiver (.get bytes remove)).map ({ c with receiver := · })
  | .acknowledge => some
    { c with
      acknowledges := (c.receiver.received, c.receiver.queue.nextSequence) :: c.acknowledges }
  | .removeUntil position acknowledge =>
    if (position, acknowledge) ∈ c.acknowledges then
      (c.sender.step (.removeUntil acknowledge)).map ({ c with sender := · })
    else none

/-- The calls of the sender are those it may make. Nothing arrives so late, or so early, that its
number is `2^31` or more away, and no segment straddles the end of the gap-free prefix. -/
def Meets (stream : ℕ → α) (c : Connection α) : Action α → Prop
  | .write bytes => c.sender.Meets (.add (c.next stream bytes))
  | .send sequence bytes => c.sender.Meets (.get sequence bytes)
  | .deliver position segment => c.receiver.taken.length ≤ position + 0x80000000 ∧
    position + segment.size ≤ c.receiver.taken.length + 0x80000000 ∧
    Aligned c.receiver (.add segment.data segment.sequence)
  | .removeUntil position acknowledge => c.sender.acknowledged ≤ position + 0x80000000 ∧
    c.sender.Meets (.removeUntil acknowledge)
  | _ => True

/-- What was read are the first bytes that were written. What is acknowledged has arrived, and the
send queue has the bytes behind it, so that those that are missing can be sent again. -/
structure Delivers (stream : ℕ → α) (c : Connection α) : Prop where
  written : c.sender.stream = slice stream 0 c.sender.stream.length
  read : c.receiver.taken = c.sender.stream.take c.receiver.taken.length
  acknowledged : c.sender.acknowledged ≤ c.receiver.received
  received : c.receiver.received ≤ c.sender.stream.length
  kept : c.sender.queue.bytes = c.sender.stream.drop c.sender.acknowledged

end Connection

/-! ## The sender -/

variable {stream : ℕ → α} {initial : Sequence} {m n p : ℕ}

lemma slice_take_drop (h : p ≤ m) :
    ((slice stream 0 m).drop p).take n = slice stream p (p + min n (m - p)) := by
  rw [drop_slice, Nat.zero_add]
  rcases Nat.le_total n (m - p) with hn | hn
  · rw [Nat.min_eq_left hn, take_slice (by omega)]
  · rw [Nat.min_eq_right hn, Nat.add_sub_cancel' h, List.take_of_length_le]
    rw [length_slice]
    exact hn

namespace Sender

variable {s s' : Sender α}

lemma step_add {data : List α} (h : s.step (.add data) = some s') :
    s'.stream = s.stream ++ data ∧ s'.acknowledged = s.acknowledged := by
  unfold step at h
  dsimp only at h
  split at h
  · cases h
    exact ⟨rfl, rfl⟩
  · cases h

lemma step_removeUntil {acknowledge : Sequence}
    (h : s.step (.removeUntil acknowledge) = some s') :
    s'.stream = s.stream ∧
      s'.acknowledged = min (s.position acknowledge) s.stream.length := by
  unfold step at h
  dsimp only at h
  split at h
  · cases h
    exact ⟨rfl, rfl⟩
  · cases h

lemma Inv.position_eq (h : s.Inv initial) (hge : (seqAt initial p).ge s.queue.firstSequence = true)
    (hlo : s.acknowledged ≤ p + 0x80000000) (hhi : p ≤ s.stream.length) :
    s.position (seqAt initial p) = p := by
  have hle := h.le
  have hsmall := h.small
  rw [h.first, ge_seqAt (by omega) (by omega), decide_eq_true_eq] at hge
  rw [Sender.position, h.first, toNat_seqAt_sub hge (by omega), Nat.add_sub_cancel' hge]

lemma Inv.retransmit (h : s.Inv initial) (hlo : s.acknowledged ≤ p) (hp : p < s.stream.length)
    (bytes : ℕ) : s.Meets (.get (seqAt initial p) bytes) ∧ s.position (seqAt initial p) = p ∧
      s.step (.get (seqAt initial p) bytes) = some s := by
  have hsmall := h.small
  have hge : (seqAt initial p).ge s.queue.firstSequence = true := by
    rw [h.first, ge_seqAt (by omega) (by omega)]
    exact decide_eq_true hlo
  have hlt : (seqAt initial p).lt s.queue.lastSequence = true := by
    rw [h.last, lt_seqAt (by omega) (by omega)]
    exact decide_eq_true hp
  have hmeets : s.Meets (.get (seqAt initial p) bytes) := ⟨hge, hlt⟩
  refine ⟨hmeets, h.position_eq hge (by omega) hp.le, ?_⟩
  unfold Sender.step
  dsimp only
  rw [h.verify, h.get hmeets]
  rfl

end Sender

/-! ## Runs -/

namespace Connection

variable {c c' : Connection α}

/-- The invariant of the connection: all that was sent is right, and what was acknowledged has
arrived. -/
structure Inv (stream : ℕ → α) (initial : Sequence) (c : Connection α) : Prop where
  sender : c.sender.Inv initial
  written : c.sender.stream = slice stream 0 c.sender.stream.length
  receiver : c.receiver.Within stream initial c.sender.stream.length
  acknowledged : c.sender.acknowledged ≤ c.receiver.received
  segments : ∀ x ∈ c.segments, x.2.sequence = seqAt initial x.1 ∧
    x.2.data = slice stream x.1 (x.1 + x.2.size) ∧ x.1 + x.2.size ≤ c.sender.stream.length
  acknowledges : ∀ x ∈ c.acknowledges, x.2 = seqAt initial x.1 ∧ x.1 ≤ c.receiver.received

lemma inv_init : (init initial : Connection α).Inv stream initial := by
  refine ⟨Sender.inv_init, rfl, Receiver.within_init, Nat.zero_le _, ?_, ?_⟩ <;>
    exact fun _ h => absurd h List.not_mem_nil

section

variable (h : c.Inv stream initial)
include h

/-- The receiver goes on. -/
lemma Inv.receive {s : Receiver α} (hs : s.Within stream initial c.sender.stream.length)
    (hle : c.receiver.received ≤ s.received) : ({ c with receiver := s }).Inv stream initial where
  sender := h.sender
  written := h.written
  receiver := hs
  acknowledged := h.acknowledged.trans hle
  segments := h.segments
  acknowledges x hx := ⟨(h.acknowledges x hx).1, (h.acknowledges x hx).2.trans hle⟩

lemma Inv.write {bytes : ℕ} {s : Sender α} (hmeets : c.sender.Meets (.add (c.next stream bytes)))
    (hs : c.sender.step (.add (c.next stream bytes)) = some s) :
    ({ c with sender := s }).Inv stream initial := by
  obtain ⟨t, ht, hinv⟩ := h.sender.step hmeets
  rw [hs] at ht
  cases ht
  obtain ⟨hstream, hacknowledged⟩ := Sender.step_add hs
  have hlen : s.stream.length = c.sender.stream.length + bytes := by
    rw [hstream, List.length_append, next, length_slice, Nat.add_sub_cancel_left]
  have hle : c.sender.stream.length ≤ s.stream.length := by omega
  refine ⟨hinv, ?_, h.receiver.mono hle, hacknowledged ▸ h.acknowledged, ?_, h.acknowledges⟩
  · show s.stream = _
    rw [hlen, hstream]
    nth_rewrite 1 [h.written]
    exact slice_append (Nat.zero_le _) (Nat.le_add_right _ _)
  · intro x hx
    obtain ⟨hsequence, hdata, hend⟩ := h.segments x hx
    exact ⟨hsequence, hdata, hend.trans hle⟩

lemma Inv.send {sequence : Sequence} {bytes : ℕ} {data : List α}
    (hmeets : c.sender.Meets (.get sequence bytes))
    (hget : c.sender.queue.getFrom sequence bytes = .ok data) :
    ({ c with
      segments := (c.sender.position sequence, ⟨sequence, data⟩) :: c.segments }).Inv stream initial := by
  refine ⟨h.sender, h.written, h.receiver, h.acknowledged, ?_, h.acknowledges⟩
  intro x hx
  rcases List.mem_cons.1 hx with rfl | hx
  · obtain ⟨hsequence, hge, hlt⟩ := h.sender.position hmeets.1
    have hend := hmeets.2
    have hle := h.sender.le
    have hsmall := h.sender.small
    rw [h.sender.get hmeets] at hget
    generalize c.sender.position sequence = p at hsequence hge hlt hget ⊢
    rw [hsequence, h.sender.last, lt_seqAt (by omega) (by omega), decide_eq_true_eq] at hend
    rw [h.written, slice_take_drop hend.le] at hget
    cases hget
    have hsize : (⟨sequence, slice stream p (p + min bytes (c.sender.stream.length - p))⟩ :
        NetBuffer α).size = min bytes (c.sender.stream.length - p) :=
      length_slice.trans (Nat.add_sub_cancel_left _ _)
    refine ⟨hsequence, by rw [hsize], ?_⟩
    rw [hsize]
    show p + _ ≤ c.sender.stream.length
    omega
  · exact h.segments x hx

lemma Inv.removeUntil {acknowledge : Sequence} {s : Sender α} (hx : (p, acknowledge) ∈ c.acknowledges)
    (hnear : c.sender.acknowledged ≤ p + 0x80000000)
    (hmeets : c.sender.Meets (.removeUntil acknowledge))
    (hs : c.sender.step (.removeUntil acknowledge) = some s) :
    ({ c with sender := s }).Inv stream initial := by
  obtain ⟨t, ht, hinv⟩ := h.sender.step hmeets
  rw [hs] at ht
  cases ht
  obtain ⟨hstream, hacknowledged⟩ := Sender.step_removeUntil hs
  obtain ⟨hsequence, harrived⟩ := h.acknowledges _ hx
  dsimp only at hsequence harrived
  have hge := hmeets.1
  rw [hsequence] at hge hacknowledged
  rw [h.sender.position_eq hge hnear (harrived.trans h.receiver.received_le)] at hacknowledged
  refine ⟨hinv, ?_, ?_, ?_, ?_, h.acknowledges⟩
  · exact hstream ▸ h.written
  · exact hstream ▸ h.receiver
  · show s.acknowledged ≤ c.receiver.received
    omega
  · exact hstream ▸ h.segments

end

lemma Inv.step [DecidableEq α] (h : c.Inv stream initial) {a : Action α}
    (hmeets : c.Meets stream a) (hs : c.step stream a = some c') : c'.Inv stream initial := by
  cases a with
  | write bytes =>
    dsimp only [Connection.step] at hs
    obtain ⟨s, hsome, rfl⟩ := Option.map_eq_some_iff.1 hs
    exact h.write hmeets hsome
  | send sequence bytes =>
    dsimp only [Connection.step] at hs
    split at hs
    · rename_i hget
      cases hs
      exact h.send hmeets hget
    · cases hs
  | deliver position segment =>
    obtain ⟨hlo, hhi, haligned⟩ := hmeets
    dsimp only [Connection.step] at hs
    split at hs
    · rename_i hx
      obtain ⟨s, hsome, rfl⟩ := Option.map_eq_some_iff.1 hs
      obtain ⟨hsequence, hdata, hend⟩ := h.segments _ hx
      obtain ⟨hs', hle, -⟩ := h.receiver.add segment hsequence hdata hend hlo hhi haligned hsome
      exact h.receive hs' hle
    · cases hs
  | read bytes remove =>
    dsimp only [Connection.step] at hs
    obtain ⟨s, hsome, rfl⟩ := Option.map_eq_some_iff.1 hs
    obtain ⟨hs', hle⟩ := h.receiver.get hsome
    exact h.receive hs' hle
  | acknowledge =>
    cases hs
    refine ⟨h.sender, h.written, h.receiver, h.acknowledged, h.segments, ?_⟩
    intro x hx
    rcases List.mem_cons.1 hx with rfl | hx
    · obtain ⟨-, l, last, hq, -⟩ := h.receiver
      refine ⟨?_, le_rfl⟩
      show c.receiver.queue.firstSequence + _ = _
      rw [hq.firstSeq]
      exact seqAt_add
    · exact h.acknowledges x hx
  | removeUntil position acknowledge =>
    dsimp only [Connection.step] at hs
    split at hs
    · rename_i hx
      obtain ⟨s, hsome, rfl⟩ := Option.map_eq_some_iff.1 hs
      exact h.removeUntil hx hmeets.1 hmeets.2 hsome
    · cases hs

/-- In every run the receiver reads what was written, and nothing is lost before it has arrived. -/
theorem delivers [DecidableEq α] {hist : History (Connection α) (Action α)}
    (hr : Run (step stream) (Meets stream) (init initial) hist c) : c.Delivers stream := by
  have h : c.Inv stream initial := hr.invariant inv_init fun h hmeets hs => h.step hmeets hs
  have hle := h.receiver.received_le
  have htaken : c.receiver.taken.length ≤ c.sender.stream.length :=
    (Nat.le_add_right _ _).trans hle
  refine ⟨h.written, ?_, h.acknowledged, hle, h.sender.bytes⟩
  rw [h.written, take_slice (by omega), Nat.zero_add]
  exact h.receiver.taken

instance [DecidableEq α] {a : Action α} : Decidable (c.Meets stream a) := by
  cases a <;> unfold Meets Aligned <;> infer_instance

/-- Around the wrap of the numbers, two segments arrive in the wrong order, and bytes of both of them
are sent again. -/
def reordered : List (Action ℕ) :=
  [.write 5, .send 0xfffffffe 2, .send 0 3, .deliver 2 ⟨0, [2, 3, 4]⟩,
    .deliver 0 ⟨0xfffffffe, [0, 1]⟩, .acknowledge, .send 0xffffffff 2,
    .deliver 1 ⟨0xffffffff, [1, 2]⟩, .removeUntil 5 3, .read 2 true]

theorem delivers_reordered : let c := outcome (step id) (init 0xfffffffe) reordered
    c.receiver.taken = [0, 1] ∧ c.sender.acknowledged = 5 ∧ c.Delivers id := by
  obtain ⟨hist, hr, -⟩ := @run_outcome _ _ (Meets id) (step id) (fun c a => decide (c.Meets id a))
    (fun _ _ => of_decide_eq_true) (init 0xfffffffe) reordered (fun _ => true) (by decide)
  exact ⟨by decide, by decide, delivers hr⟩

/-! ## Recovery -/

/-- Nothing new is written, and no segment has more than `mss` bytes. -/
def Action.Repeats (mss : ℕ) : Action α → Prop
  | .write _ => False
  | .send _ bytes => bytes ≤ mss
  | _ => True

section

variable [DecidableEq α] {mss : ℕ} {s : Receiver α}

/-- A run leads from one state to the other, without new bytes. -/
def Recovers (stream : ℕ → α) (mss : ℕ) (c c' : Connection α) : Prop :=
  ∃ hist, Run (step stream) (fun c a => c.Meets stream a ∧ a.Repeats mss) c hist c'

lemma Recovers.trans {c'' : Connection α} (h : c.Recovers stream mss c')
    (h' : c'.Recovers stream mss c'') : c.Recovers stream mss c'' := by
  obtain ⟨hist, hr⟩ := h
  obtain ⟨hist', hr'⟩ := h'
  exact ⟨_, hr.append hr'⟩

lemma Recovers.step (a : Action α) (hmeets : c.Meets stream a) (ha : a.Repeats mss)
    (hs : c.step stream a = some c') : c.Recovers stream mss c' :=
  ⟨_, .snoc .nil ⟨hmeets, ha⟩ hs⟩

lemma Recovers.inv (h : c.Recovers stream mss c') (hi : c.Inv stream initial) :
    c'.Inv stream initial := by
  obtain ⟨hist, hr⟩ := h
  exact hr.invariant hi fun hi hok hs => hi.step hok.1 hs

lemma Inv.readAll (h : c.Inv stream initial) (mss : ℕ) : ∃ s : Receiver α,
    c.Recovers stream mss { c with receiver := s } ∧ s.taken.length = c.receiver.received ∧
      s.queue.contiguousBytes = 0 := by
  obtain ⟨s, hread⟩ : ∃ s,
      TCP.step c.receiver (.get c.receiver.queue.contiguousBytes true) = some s := ⟨_, rfl⟩
  have hstep : c.step stream (.read c.receiver.queue.contiguousBytes true) =
      some { c with receiver := s } := by
    dsimp only [Connection.step]
    rw [hread]
    rfl
  exact ⟨s, .step (.read c.receiver.queue.contiguousBytes true) trivial trivial hstep,
    h.receiver.readAll hread⟩

/-- What is missing next can be sent again, and arrives. -/
lemma Inv.fetch (h : c.Inv stream initial) (hmss : 0 < mss)
    (hlt : c.receiver.received < c.sender.stream.length) :
    ∃ c', c.Recovers stream mss c' ∧ c'.sender = c.sender ∧
      c.receiver.received < c'.receiver.received := by
  obtain ⟨s, hread, htaken, hempty⟩ := h.readAll mss
  have h₁ := hread.inv h
  -- the segment with the bytes behind them
  obtain ⟨hmeets, hposition, hget⟩ := h.sender.retransmit h.acknowledged hlt mss
  have hdata := h.sender.get hmeets
  have h₂ := h₁.send hmeets hdata
  rw [hposition] at hdata h₂
  generalize hp : c.receiver.received = p at hlt htaken hmeets hposition hget hdata h₂ ⊢
  generalize hsegment : (⟨seqAt initial p, (c.sender.stream.drop p).take mss⟩ : NetBuffer α) =
    segment at h₂
  have hsize : segment.size = min mss (c.sender.stream.length - p) := by
    rw [← hsegment, NetBuffer.size, List.length_take, List.length_drop]
  obtain ⟨hsequence, hslice, hend⟩ := h₂.segments (p, segment) List.mem_cons_self
  have hsmall := h.sender.small
  have hle := h.acknowledged
  have haligned := h₁.receiver.aligned hempty segment.data segment.sequence
  obtain ⟨s', hadd⟩ : ∃ s', TCP.step s (.add segment.data segment.sequence) = some s' := ⟨_, rfl⟩
  dsimp only at hsequence hslice hend
  have hlo : s.taken.length ≤ p + 0x80000000 := by omega
  have hhi : p + segment.size < s.taken.length + 0x80000000 := by omega
  obtain ⟨-, -, hmore⟩ := h₁.receiver.add segment hsequence hslice hend hlo hhi.le haligned hadd
  have hsend : ({ c with receiver := s } : Connection α).step stream (.send (seqAt initial p) mss) =
      some { c with receiver := s, segments := (p, segment) :: c.segments } := by
    dsimp only [Connection.step]
    rw [hget, hdata, hposition, ← hsegment]
  have hdeliver : ({ c with receiver := s, segments := (p, segment) :: c.segments } :
      Connection α).step stream (.deliver p segment) =
      some { c with receiver := s', segments := (p, segment) :: c.segments } := by
    dsimp only [Connection.step]
    rw [if_pos List.mem_cons_self, hadd]
    rfl
  have hstart : p ≤ s.received := htaken.ge.trans (Nat.le_add_right _ _)
  have hgrown := hmore hstart hhi
  refine ⟨_, (hread.trans (.step (.send (seqAt initial p) mss) hmeets le_rfl hsend)).trans
    (.step (.deliver p segment) ⟨hlo, hhi.le, haligned⟩ trivial hdeliver), rfl, ?_⟩
  dsimp only
  omega

lemma Inv.arrive (h : c.Inv stream initial) (hmss : 0 < mss) :
    ∃ c', c.Recovers stream mss c' ∧ c'.sender = c.sender ∧
      c'.receiver.received = c.sender.stream.length := by
  induction hn : c.sender.stream.length - c.receiver.received using Nat.strong_induction_on
    generalizing c with
  | _ n ih =>
    rcases h.receiver.received_le.lt_or_eq with hlt | heq
    · obtain ⟨c₁, hrun, hsender, hmore⟩ := h.fetch hmss hlt
      have hfewer : c₁.sender.stream.length - c₁.receiver.received < n := by
        rw [hsender]
        omega
      obtain ⟨c', hrun', hsender', hall⟩ := ih _ hfewer (hrun.inv h) rfl
      exact ⟨c', hrun.trans hrun', hsender'.trans hsender, hsender ▸ hall⟩
    · exact ⟨c, ⟨[], .nil⟩, rfl, heq⟩

/-- No loss is final: from every state of a run the bytes that are missing can be sent again, in
segments of any size, until all that was written is read. -/
theorem recovers {hist : History (Connection α) (Action α)} (hmss : 0 < mss)
    (hr : Run (step stream) (Meets stream) (init initial) hist c) :
    ∃ c', c.Recovers stream mss c' ∧ c'.sender = c.sender ∧ c'.receiver.taken = c.sender.stream := by
  have h : c.Inv stream initial := hr.invariant inv_init fun h hmeets hs => h.step hmeets hs
  obtain ⟨c', harrive, hsender, hall⟩ := h.arrive hmss
  have h' := harrive.inv h
  obtain ⟨s, hread, htaken, -⟩ := h'.readAll mss
  have hbytes := (hread.inv h').receiver.taken
  dsimp only at hbytes
  rw [htaken, hall, ← h.written] at hbytes
  exact ⟨_, harrive.trans hread, hsender, hbytes⟩

end

/-- The first segment is lost, and its bytes are sent again one by one. -/
theorem recovers_lost : let c := outcome (step id) (init 0xfffffffe) (reordered.take 4)
    c.receiver.received = 0 ∧ ∃ c', c.Recovers id 1 c' ∧ c'.sender = c.sender ∧
      c'.receiver.taken = [0, 1, 2, 3, 4] := by
  obtain ⟨hist, hr, -⟩ := @run_outcome _ _ (Meets id) (step id) (fun c a => decide (c.Meets id a))
    (fun _ _ => of_decide_eq_true) (init 0xfffffffe) (reordered.take 4) (fun _ => true) (by decide)
  exact ⟨by decide, recovers Nat.one_pos hr⟩

end Connection

end Haiku.TCP
