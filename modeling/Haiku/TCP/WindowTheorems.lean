import Haiku.TCP.ReceiveTheorems

/-!
# The receive window

A peer that respects the window never makes the endpoint store a byte beyond what it has offered.
-/

namespace Haiku.TCP

open Lib

variable {α β : Type}

namespace Observed

variable {s s' : Observed α β} {call : EndpointCall α β} {r : Reference} {segment : Segment}
  {data : List α}

lemma mem_take_label {first : Sequence} {k : ℕ} {x : α × Place}
    (h : x ∈ (r.label data first).take k) :
    x.2.connection = r.connection ∧
      ∃ i, i < k ∧ i < data.length ∧ x.2.position = r.locate first + (i : ℤ) := by
  obtain ⟨i, hi, hx⟩ := List.mem_take_iff_getElem.1 h
  have hlength : (r.label data first).length = data.length := List.length_mapIdx
  have hplace : (r.label data first)[i].2 = ⟨r.connection, r.locate first + i⟩ := by
    simp [Reference.label]
  rw [← hx, hplace]
  exact ⟨rfl, i, by omega, by omega, rfl⟩

lemma reference_segmentReceived :
    (s.reference (.segmentReceived segment data : EndpointAction α β)).number =
      s.endpoint.expected segment := by
  unfold reference TCPEndpoint.expected
  dsimp only
  split_ifs <;> rfl

lemma offers_of_adds {x : α × Place} (hcall : call.action = .segmentReceived segment data)
    (hrespects : s.Respects call)
    (hadds : s.endpoint.Adds segment
      ((s.reference call.action).label data segment.firstByte) x) : s.Offers x.2 := by
  obtain ⟨hrefuses, hx, htake⟩ := hadds
  have hlength : ((s.reference call.action).label data segment.firstByte).length = data.length :=
    List.length_mapIdx
  rw [hlength] at hrefuses
  have hreceived : (segment, data) ∈ call.action.received := by
    rw [hcall]
    exact List.mem_singleton.2 rfl
  have hcases := hrespects _ hreceived
  dsimp only at hcases
  rcases hcases with hnone | hrefused | ⟨edge, hedge, hconnection, hbelow⟩
  · rw [hnone] at hx
    simp [Reference.label] at hx
  · rw [hrefuses] at hrefused
    simp at hrefused
  · rcases hbelow with hend | ⟨hwindow, hend⟩
    · rw [← List.take_length (l := (s.reference call.action).label data segment.firstByte)] at hx
      obtain ⟨hsame, i, _, hi, hplace⟩ := mem_take_label hx
      exact ⟨edge, hedge, hconnection.trans hsame.symm, by omega⟩
    · have hnumber : (s.reference call.action).number = s.endpoint.expected segment := by
        rw [hcall, reference_segmentReceived]
      obtain ⟨hsame, i, hi, _, hplace⟩ := mem_take_label (htake hwindow)
      refine ⟨edge, hedge, hconnection.trans hsame.symm, ?_⟩
      have hlocate : (s.reference call.action).locate segment.firstByte =
        (s.reference call.action).position +
          (segment.firstByte - s.endpoint.expected segment).toInt := by
        rw [Reference.locate, hnumber]
      unfold TCPEndpoint.keptLength at hi
      split_ifs at hi hend <;> omega

lemma enabled_prepare {e : TCPEndpoint (α × Place) β} {call : EndpointCall (α × Place) β}
    {action : EndpointAction (α × Place) β} :
    (e.prepare call).enabled action = e.enabled action := by
  cases action <;> rfl

lemma labelled_eq_segmentReceived {action : EndpointAction α β} {data : List (α × Place)}
    (h : labelled r action = .segmentReceived segment data) :
    ∃ data₀, action = .segmentReceived segment data₀ ∧
      data = r.label data₀ segment.firstByte := by
  cases action with
  | segmentReceived segment₀ data₀ =>
    injection h with hsegment hdata
    exact ⟨data₀, by rw [hsegment], by rw [← hdata, hsegment]⟩
  | _ => simp [labelled] at h

lemma offers_step {place : Place} (hstep : s.step call = some s') (h : s.Offers place) :
    s'.Offers place := by
  obtain ⟨e, _, hs'⟩ := Option.map_eq_some_iff.1 hstep
  obtain ⟨edge, hedge, hplace⟩ := h
  refine ⟨edge, ?_, hplace⟩
  rw [← hs']
  exact List.mem_append_left _ hedge

lemma offers_of_step (h : s.BelowEdge) (hrespects : s.Respects call)
    (hstep : s.step call = some s') : ∀ x ∈ s'.endpoint.receiveQueue.bytes, s.Offers x.2 := by
  obtain ⟨e, he, hs'⟩ := Option.map_eq_some_iff.1 hstep
  have hendpoint : s'.endpoint = e := by rw [← hs']
  unfold stepEndpoint at he
  split_ifs at he with henabled
  have he := Option.some.inj he
  intro x hx
  rw [hendpoint, ← he] at hx
  rw [← enabled_prepare] at henabled
  rcases TCPEndpoint.mem_perform henabled hx with hold | ⟨segment, data, hlabelled, hadds⟩
  · exact h x hold
  · obtain ⟨data₀, haction, hdata⟩ := labelled_eq_segmentReceived hlabelled
    rw [hdata] at hadds
    exact offers_of_adds haction hrespects hadds

/-- As long as the segments respect the window, every byte in the receive queue lies below the
right edge of a window the endpoint has offered; and what a further segment adds lies below one
that was offered before the segment arrived. -/
theorem belowEdge {sendBufferSize receiveBufferSize : ℕ} {anything : Sequence}
    {hist : History (Observed α β) (EndpointCall α β)} {s : Observed α β}
    (hr : Run step Respects (.init sendBufferSize receiveBufferSize anything) hist s) :
    s.BelowEdge ∧ ∀ (call : EndpointCall α β) (s' : Observed α β), s.Respects call →
      s.step call = some s' → ∀ x ∈ s'.endpoint.receiveQueue.bytes, s.Offers x.2 := by
  have hbelow : s.BelowEdge := by
    apply hr.invariant (I := BelowEdge)
    · intro x hx
      cases hx
    · intro s call s' h hrespects hstep x hx
      exact offers_step hstep (offers_of_step h hrespects hstep x hx)
  exact ⟨hbelow, fun call s' hrespects hstep => offers_of_step hbelow hrespects hstep⟩

instance {s : Observed α β} {place : Place} : Decidable (s.Offers place) :=
  inferInstanceAs (Decidable (∃ edge ∈ s.edges, _))

instance {s : Observed α β} {segment : Segment} {size : ℕ} {r : Reference} :
    Decidable (s.Offered segment size r) :=
  inferInstanceAs (Decidable (∃ edge ∈ s.edges, _))

instance [DecidableEq α] {s : Observed α β} {call : EndpointCall α β} :
    Decidable (s.Respects call) :=
  inferInstanceAs (Decidable (∀ r ∈ call.action.received, _))

instance {s : Observed α β} : Decidable s.BelowEdge :=
  inferInstanceAs (Decidable (∀ x ∈ s.endpoint.receiveQueue.bytes, _))

lemma respects_of_decide (s : Observed UInt8 UInt8) (call : EndpointCall UInt8 UInt8)
    (h : decide (s.Respects call) = true) : s.Respects call :=
  of_decide_eq_true h

def somePath : TCPEndpoint.Path := ⟨true, false, true, 1500, 100⟩

def someSegment (synchronize : Bool) (sequence : Sequence) : Segment :=
  { Segment.init { SegmentFlags.none with acknowledge := true, synchronize := synchronize } with
    sequence         := sequence
    acknowledge      := 101
    advertisedWindow := 100 }

def someCall (action : EndpointAction UInt8 UInt8) : EndpointCall UInt8 UInt8 :=
  ⟨0, [.sent], action⟩

/-- A connection, a segment that fills the receive buffer, and its acknowledge, which offers
nothing more -/
def fillBuffer : List (EndpointCall UInt8 UInt8) :=
  [someCall (.connect somePath), someCall (.segmentReceived (someSegment true 500) []),
    someCall (.segmentReceived (someSegment false 501) [1, 2, 3, 4]),
    someCall .delayedAcknowledgeTimer]

theorem belowEdge_fillBuffer : (outcome step (.init 8 4 0) fillBuffer).BelowEdge ∧
    (outcome step (.init 8 4 0) fillBuffer).endpoint.receiveQueue.bytes.length = 4 := by
  obtain ⟨hist, hr, _⟩ := run_outcome step respects_of_decide (.init 8 4 0) fillBuffer
    (fun _ => true) (by decide)
  exact ⟨(belowEdge hr).1, by decide⟩

/-- The endpoint stores the next segment all the same: the receive buffer of four bytes then holds
eight. -/
theorem window_exceeded : ¬∀ (hist : History (Observed UInt8 UInt8) (EndpointCall UInt8 UInt8))
    (s : Observed UInt8 UInt8), Run step (fun _ _ => True) (.init 8 4 0) hist s → s.BelowEdge := by
  intro h
  obtain ⟨hist, hr, _⟩ := @run_outcome _ _ (fun _ _ => True) step (fun _ _ => true)
    (fun _ _ _ => trivial) (.init 8 4 0)
    (fillBuffer ++ [someCall (.segmentReceived (someSegment false 505) [5, 6, 7, 8])])
    (fun _ => true) (by decide)
  have hbelow := h hist _ hr
  revert hbelow
  decide

end Observed

end Haiku.TCP
