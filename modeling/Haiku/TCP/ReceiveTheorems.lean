import Haiku.TCP.Window

/-!
# What receiving adds to the receive queue

What sending leaves alone, and what a received segment adds to the receive queue: data in the window
of a segment that is not refused. No other call adds anything.
-/

namespace Haiku.TCP

variable {α β : Type}

/-! ## The bytes in a queue -/

variable {n : ℕ}

namespace BufferQueue

def bytesOf (list : List (NetBuffer α)) : List α := list.flatMap NetBuffer.data

variable {x : α} {list before after : List (NetBuffer α)} {buffer : NetBuffer α}
  {sequence : Sequence} {q : BufferQueue α}

@[simp] lemma bytesOf_nil : bytesOf ([] : List (NetBuffer α)) = [] := rfl

@[simp] lemma bytesOf_cons : bytesOf (buffer :: list) = buffer.data ++ bytesOf list := rfl

@[simp] lemma bytesOf_append : bytesOf (before ++ after) = bytesOf before ++ bytesOf after :=
  List.flatMap_append

@[simp] lemma mem_bytesOf_reverse : x ∈ bytesOf list.reverse ↔ x ∈ bytesOf list := by
  simp [bytesOf]

lemma bytes_eq : q.bytes = bytesOf q.list := rfl

lemma mem_findPlace (h : x ∈ bytesOf (findPlace sequence before after).1 ∨
    x ∈ bytesOf (findPlace sequence before after).2) : x ∈ bytesOf before ∨ x ∈ bytesOf after := by
  induction before generalizing after with
  | nil => exact h
  | cons previous before ih =>
    unfold findPlace at h
    by_cases hge : sequence.ge previous.sequence
    · simpa only [if_pos hge] using h
    · rw [if_neg hge] at h
      have hrest := ih h
      simp only [bytesOf_cons, List.mem_append] at hrest ⊢
      tauto

lemma mem_trimPrevious {n : ℕ} :
    (∀ b ∈ (trimPrevious buffer before n).1, ∀ x ∈ b.data, x ∈ buffer.data) ∧
      ∀ x ∈ bytesOf (trimPrevious buffer before n).2.1, x ∈ bytesOf before := by
  cases before with
  | nil => simp [trimPrevious]
  | cons previous before =>
    rw [trimPrevious]
    split_ifs with hsame hsize hcovered hover
    · simp
    · simp +contextual
    · simp
    · constructor
      · intro b hb x hx
        rw [← Option.mem_some.1 hb] at hx
        exact List.mem_of_mem_drop hx
      · simp
    · simp

lemma mem_swallow {n : ℕ} :
    (∀ b ∈ (swallow buffer after n).1, ∀ x ∈ b.data, x ∈ buffer.data) ∧
      ∀ x ∈ bytesOf (swallow buffer after n).2.1, x ∈ bytesOf after := by
  induction after generalizing n with
  | nil => simp [swallow]
  | cons next after ih =>
    rw [swallow]
    split_ifs with hover hcovered hlater
    · have hrest := @ih (n - next.size)
      refine ⟨hrest.1, ?_⟩
      intro x hx
      exact List.mem_append_right _ (hrest.2 x hx)
    · constructor
      · intro b hb x hx
        rw [← Option.mem_some.1 hb] at hx
        exact List.mem_of_mem_take hx
      · simp
    · simp
    · simp

lemma mem_insert (h : x ∈ (q.insert buffer).bytes) : x ∈ q.bytes ∨ x ∈ buffer.data := by
  unfold insert at h
  dsimp only at h
  -- the buffers around the place, then those left after the trimming on either side
  have hplace := fun y => @mem_findPlace _ y q.list.reverse [] buffer.sequence
  generalize findPlace buffer.sequence q.list.reverse [] = place at h hplace
  have hprevious := @mem_trimPrevious _ place.1 buffer q.numBytes
  generalize trimPrevious buffer place.1 q.numBytes = previous at h hprevious
  have hold : ∀ y, y ∈ bytesOf place.1 ∨ y ∈ bytesOf place.2 → y ∈ q.bytes := by
    intro y hy
    simpa [bytes_eq] using hplace y hy
  match previous, hprevious, h with
  | (none, _, _), _, h => exact .inl h
  | (some trimmed, before, numBytes), ⟨hdata, hbefore⟩, h =>
    have hnext := @mem_swallow _ place.2 trimmed numBytes
    dsimp only at h
    generalize swallow trimmed place.2 numBytes = next at h hnext
    match next, hnext, h with
    | (none, after, _), ⟨_, hafter⟩, h =>
      simp only [bytes_eq, bytesOf_append, List.mem_append, mem_bytesOf_reverse] at h
      exact .inl (hold x (h.imp (hbefore x) (hafter x)))
    | (some rest, after, _), ⟨hrest, hafter⟩, h =>
      simp only [link, bytes_eq, bytesOf_append, bytesOf_cons, List.mem_append,
        mem_bytesOf_reverse] at h
      rcases h with hx | hx | hx
      · exact .inl (hold x (.inl (hbefore x hx)))
      · exact .inr (hdata trimmed rfl x (hrest rest rfl x hx))
      · exact .inl (hold x (.inr (hafter x hx)))

lemma mem_add {data : List α} (h : x ∈ (q.add data sequence).bytes) :
    x ∈ q.bytes ∨ x ∈ data := by
  unfold add at h
  dsimp only at h
  split_ifs at h with hnone hold hend hend
  · exact .inl h
  · have hx : x ∈ q.bytes ∨ x ∈ data.drop (q.firstSequence - sequence).toNat := by
      simpa [append, bytes_eq, NetBuffer.removeHeader] using h
    exact hx.imp_right List.mem_of_mem_drop
  · have hx := mem_insert h
    exact hx.imp_right List.mem_of_mem_drop
  · simpa [append, bytes_eq] using h
  · exact mem_insert h

lemma mem_takeBytes (h : x ∈ bytesOf (takeBytes n list).2) : x ∈ bytesOf list := by
  induction list generalizing n with
  | nil => exact h
  | cons source list ih =>
    rw [takeBytes] at h
    dsimp only at h
    split_ifs at h with hzero hall
    · exact h
    · exact List.mem_append_right _ (ih h)
    · rw [bytesOf_cons, List.mem_append] at h ⊢
      exact h.imp_left List.mem_of_mem_drop

lemma mem_get {remove : Bool} (h : x ∈ (q.get n remove).1.bytes) : x ∈ q.bytes := by
  unfold get at h
  dsimp only at h
  split_ifs at h with hzero hremove
  · exact h
  · rw [bytes_eq] at h ⊢
    generalize q.list = list at h ⊢
    cases list with
    | nil => exact h
    | cons buffer list =>
      dsimp only [takeFrom] at h
      split_ifs at h with hlarge
      · exact mem_takeBytes h
      · exact List.mem_append_right _ (mem_takeBytes h)
  · exact h

end BufferQueue

/-! ## Numbers near each other -/

variable {a b : Sequence}

lemma advance_sub {m : ℕ} :
    a.advance n - b.advance m = a - b + BitVec.ofNat 32 n - BitVec.ofNat 32 m := by
  unfold Sequence.advance
  ring

lemma toInt_advance_sub {a b : Sequence} {n m : ℕ}
    (hlo : -0x80000000 ≤ (a - b).toInt + n - m) (hhi : (a - b).toInt + n - m < 0x80000000) :
    (a.advance n - b.advance m).toInt = (a - b).toInt + n - m := by
  rw [advance_sub, BitVec.toInt_sub, BitVec.toInt_add, BitVec.toInt_ofNat', BitVec.toInt_ofNat',
    Int.bmod_sub_bmod, Int.sub_bmod_bmod]
  have horder : (a - b).toInt + Int.bmod n (2 ^ 32) - m =
      Int.bmod n (2 ^ 32) + ((a - b).toInt - m) := by ring
  rw [horder, Int.bmod_add_bmod]
  rw [Int.bmod_eq_of_le (by omega) (by omega)]
  ring

@[simp] lemma advance_zero : a.advance 0 = a := by
  simp [Sequence.advance]

lemma lt_advance (h : 0 ≤ (a - b).toInt) (hn : n < 2 ^ 31) :
    a.lt (b.advance n) = decide ((a - b).toInt < n) := by
  have hlt : (a - b).toInt < 0x80000000 := by have := BitVec.toInt_lt (x := a - b); simpa using this
  have hsub := @toInt_advance_sub a b 0 n (by omega) (by omega)
  rw [advance_zero] at hsub
  rw [Sequence.lt, hsub, decide_eq_decide]
  omega

lemma toInt_sub_comm (h : -0x80000000 < (a - b).toInt) : (b - a).toInt = -(a - b).toInt := by
  have hhi : (a - b).toInt < 0x80000000 := by simpa using BitVec.toInt_lt (x := a - b)
  have hneg : b - a = 0 - (a - b) := by ring
  rw [hneg, BitVec.toInt_sub]
  have hzero : (0 : Sequence).toInt = 0 := rfl
  rw [hzero, Int.bmod_eq_of_le (by omega) (by omega)]
  omega

lemma advance_sub_self (h : 0 ≤ (b - a).toInt) : a.advance (b - a).toInt.toNat = b := by
  have hnat : BitVec.ofNat 32 (b - a).toInt.toNat = b - a := by
    rw [← BitVec.ofInt_natCast, Int.toNat_of_nonneg h, BitVec.ofInt_toInt]
  rw [Sequence.advance, hnat]
  ring

variable {size : ℕ}

lemma near_of_segmentInSequence {sequence receiveNext : Sequence} {receiveWindow : ℕ}
    (h : segmentInSequence sequence size receiveNext receiveWindow) (hsize : size ≠ 0)
    (hsmall : size < 2 ^ 16) (hwindow : receiveWindow < 2 ^ 31) :
    0 < receiveWindow ∧ -(size : ℤ) < (sequence - receiveNext).toInt ∧
      (sequence - receiveNext).toInt < receiveWindow := by
  unfold segmentInSequence at h
  rw [if_neg hsize] at h
  split_ifs at h with hzero
  rw [Bool.or_eq_true] at h
  rcases h with h | h
  · unfold inWindow at h
    rw [Bool.and_eq_true, Sequence.ge, decide_eq_true_eq] at h
    have hlt := h.2
    rw [lt_advance h.1 hwindow, decide_eq_true_eq] at hlt
    omega
  · -- the last byte of the segment is in the window
    unfold inWindow at h
    rw [Bool.and_eq_true, Sequence.ge, decide_eq_true_eq] at h
    have hlt := h.2
    rw [lt_advance h.1 hwindow, decide_eq_true_eq] at hlt
    have hge := h.1
    have hlast : sequence.advance size - 1 - receiveNext =
        sequence - receiveNext + BitVec.ofNat 32 (size - 1) := by
      have hpred : BitVec.ofNat 32 size - 1 = BitVec.ofNat 32 (size - 1) := by bv_omega
      rw [← hpred, Sequence.advance]
      ring
    rw [hlast, BitVec.toInt_add, BitVec.toInt_ofNat', Int.add_bmod_bmod, Int.bmod_def] at hge hlt
    have hlo : -0x80000000 ≤ (sequence - receiveNext).toInt := by
      simpa using BitVec.le_toInt (sequence - receiveNext)
    have hhi : (sequence - receiveNext).toInt < 0x80000000 := by
      simpa using BitVec.toInt_lt (x := sequence - receiveNext)
    omega

/-! ## What sending leaves alone -/

namespace TCPEndpoint

variable {e : TCPEndpoint α β} {segment : Segment} {data : List α} {x : α}

/-- The endpoints agree on what concerns receiving, and on the state. -/
structure SameReceiver (e e' : TCPEndpoint α β) : Prop where
  receiving : e'.toReceiving = e.toReceiving
  noReceive : e'.flags.noReceive = e.flags.noReceive
  state : e'.state = e.state

lemma SameReceiver.trans {e₀ e₁ e₂ : TCPEndpoint α β} (h : SameReceiver e₀ e₁)
    (h' : SameReceiver e₁ e₂) : SameReceiver e₀ e₂ where
  receiving := h'.receiving.trans h.receiving
  noReceive := h'.noReceive.trans h.noReceive
  state     := h'.state.trans h.state

lemma SameReceiver.queue {e' : TCPEndpoint α β} (h : SameReceiver e e') :
    e'.receiveQueue = e.receiveQueue := congrArg Receiving.receiveQueue h.receiving

lemma sameReceiver_setSending {s : Sending β} : SameReceiver e (e.setSending s) :=
  ⟨rfl, rfl, rfl⟩

lemma sameReceiver_sendQueuedWithin {force : Bool} {sendWindow : ℕ} :
    SameReceiver e (e.sendQueuedWithin force sendWindow).1 := by
  unfold sendQueuedWithin
  split_ifs
  · exact ⟨rfl, rfl, rfl⟩
  · exact sameReceiver_setSending

lemma sameReceiver_sendQueued {force : Bool} : SameReceiver e (e.sendQueued force).1 :=
  sameReceiver_sendQueuedWithin

lemma sameReceiver_sendAcknowledge {force : Bool} : SameReceiver e (e.sendAcknowledge force) :=
  sameReceiver_sendQueuedWithin

lemma sameReceiver_duplicateAcknowledge : SameReceiver e (e.duplicateAcknowledge segment) := by
  unfold duplicateAcknowledge
  dsimp only
  split_ifs
  · exact sameReceiver_setSending
  · exact sameReceiver_setSending.trans sameReceiver_sendQueued

lemma sameReceiver_acknowledged : SameReceiver e (e.acknowledged segment) := by
  unfold acknowledged
  dsimp only
  split_ifs
  · exact sameReceiver_setSending.trans sameReceiver_sendQueued
  · exact sameReceiver_setSending

lemma sameReceiver_delayedAcknowledge : SameReceiver e e.delayedAcknowledge := by
  unfold delayedAcknowledge
  split_ifs
  · exact sameReceiver_setSending.trans sameReceiver_sendAcknowledge
  · exact sameReceiver_setSending

lemma toReceiving_enterTimeWait : e.enterTimeWait.toReceiving = e.toReceiving := by
  unfold enterTimeWait
  dsimp only
  split_ifs <;> rfl

lemma toReceiving_disconnect : e.disconnect.1.toReceiving = e.toReceiving := by
  have hsend := fun state => @sameReceiver_sendQueued _ _ { e with state := state } false
  unfold disconnect
  dsimp only
  split
  · split_ifs <;> exact (hsend .finishSent).receiving
  · split_ifs <;> exact (hsend .finishSent).receiving
  · split_ifs <;> exact (hsend .waitForFinishAcknowledge).receiving
  · rfl

/-! ## What receiving adds -/

/-- The number of bytes of a segment up to the end of the window; a finish flag beyond the window
counts as one more. -/
def keptLength (finish : Bool) (first receiveNext : Sequence) (window : ℕ) : ℕ :=
  (window + (if finish then 1 else 0) - (first - receiveNext).toInt).toNat

lemma trimStart_of_neg (hlo : -(data.length : ℤ) < (segment.sequence - e.receiveNext).toInt)
    (hneg : (segment.sequence - e.receiveNext).toInt < 0) (hsmall : data.length < 2 ^ 16) :
    e.trimStart segment data =
      ({ segment with sequence := e.receiveNext },
        data.drop (-(segment.sequence - e.receiveNext).toInt).toNat) := by
  have hdrop : (e.receiveNext - segment.sequence).toInt =
      -(segment.sequence - e.receiveNext).toInt := toInt_sub_comm (by omega)
  have hnext : segment.sequence.advance (e.receiveNext - segment.sequence).toInt.toNat =
      e.receiveNext := advance_sub_self (by omega)
  unfold trimStart
  dsimp only
  rw [hnext, hdrop, if_pos (by omega), if_neg (by omega)]

lemma trimStart_of_nonneg (hge : 0 ≤ (segment.sequence - e.receiveNext).toInt) :
    e.trimStart segment data = (segment, data) := by
  have hdrop : (e.receiveNext - segment.sequence).toInt =
      -(segment.sequence - e.receiveNext).toInt := toInt_sub_comm (by omega)
  unfold trimStart
  dsimp only
  rw [hdrop, if_neg (by omega)]

variable {segment' : Segment} {data' : List α} {immediate : Bool}

lemma mem_trimEnd (hge : 0 ≤ (segment.sequence - e.receiveNext).toInt)
    (hhi : (segment.sequence - e.receiveNext).toInt < e.receiveWindow)
    (hsmall : data.length < 2 ^ 16) (hwindow : e.receiveWindow < 2 ^ 31)
    (htrim : e.trimEnd segment data = some (segment', data', immediate)) (hx : x ∈ data') :
    x ∈ data.take (keptLength segment.flags.finish segment.sequence e.receiveNext e.receiveWindow) := by
  have hdrop :
    (segment.sequence.advance data.length - e.receiveNext.advance e.receiveWindow).toInt =
      (segment.sequence - e.receiveNext).toInt + data.length - e.receiveWindow :=
    toInt_advance_sub (by omega) (by omega)
  unfold trimEnd at htrim
  dsimp only at htrim
  rw [hdrop] at htrim
  unfold keptLength
  split_ifs at htrim with hbeyond hall hfinish
  all_goals
    have heq := Option.some.inj htrim
    have hdata := congrArg (fun r => r.2.1) heq
    dsimp only at hdata
    rw [← hdata] at hx
  · -- one byte less is removed because of the finish flag
    apply List.take_subset_take_left _ _ hx
    rw [if_pos hfinish]
    omega
  · apply List.take_subset_take_left _ _ hx
    rw [if_neg hfinish]
    omega
  · rw [List.take_of_length_le]
    · exact hx
    · split_ifs <;> omega

lemma mem_trim (hlo : -(data.length : ℤ) < (segment.sequence - e.receiveNext).toInt)
    (hhi : (segment.sequence - e.receiveNext).toInt < e.receiveWindow)
    (hpos : 0 < e.receiveWindow) (hsmall : data.length < 2 ^ 16)
    (hwindow : e.receiveWindow < 2 ^ 31)
    (htrim : e.trimEnd (e.trimStart segment data).1 (e.trimStart segment data).2 =
      some (segment', data', immediate)) (hx : x ∈ data') :
    x ∈ data.take (keptLength segment.flags.finish segment.sequence e.receiveNext e.receiveWindow) := by
  rcases lt_or_ge (segment.sequence - e.receiveNext).toInt 0 with hneg | hge
  · rw [trimStart_of_neg hlo hneg hsmall] at htrim
    have hzero : (e.receiveNext - e.receiveNext).toInt = 0 := by simp
    have hkept := mem_trimEnd (by dsimp only; omega) (by dsimp only; omega) (by simp; omega)
      hwindow htrim hx
    unfold keptLength at hkept ⊢
    dsimp only at hkept
    rw [hzero, List.take_drop] at hkept
    apply List.take_subset_take_left _ _ (List.mem_of_mem_drop hkept)
    split_ifs <;> omega
  · rw [trimStart_of_nonneg hge] at htrim
    exact mem_trimEnd hge hhi hsmall hwindow htrim hx

lemma queue_updateTimestamps :
    (e.updateTimestamps segment size).receiveQueue = e.receiveQueue := by
  unfold updateTimestamps
  split_ifs <;> rfl


lemma mem_addData (h : x ∈ (e.addData segment data).1.receiveQueue.bytes) :
    x ∈ e.receiveQueue.bytes ∨ x ∈ data := by
  unfold addData at h
  dsimp only at h
  have hqueue : (if segment.flags.finish then
      { e with finishReceived := true, finishReceivedAt := segment.sequence.advance data.length }
      else e).receiveQueue = e.receiveQueue := by split_ifs <;> rfl
  rw [hqueue] at h
  have hbytes : x ∈ (e.receiveQueue.toBufferQueue.add data segment.sequence).bytes := by
    split_ifs at h <;> exact h
  exact BufferQueue.mem_add hbytes

lemma queue_finishedByPeer : e.finishedByPeer.receiveQueue = e.receiveQueue := by
  unfold finishedByPeer
  split
  · rfl
  · rfl
  · rfl
  · exact congrArg Receiving.receiveQueue toReceiving_enterTimeWait
  · rfl
  · rfl

lemma mem_receiveData {segmentLength : ℕ} {action : SegmentAction}
    (h : x ∈ (e.receiveData segment data segmentLength action).1.receiveQueue.bytes) :
    x ∈ e.receiveQueue.bytes ∨ e.shouldReceive ∧ x ∈ data := by
  unfold receiveData at h
  dsimp only at h
  generalize hr : (if (data.length > 0 || segment.flags.finish) && e.shouldReceive then
    e.addData segment data
    else if e.flags.noReceive then
      ({ e with receiveNext := e.receiveNext.advance data.length }, segment)
    else (e, segment)) = r at h
  have hmem : x ∈ r.1.receiveQueue.bytes := by
    split_ifs at h with hfinish hstate
    · rw [queue_updateTimestamps, queue_finishedByPeer] at h
      exact h
    · rw [queue_updateTimestamps] at h
      exact h
    · rw [queue_updateTimestamps] at h
      exact h
  split_ifs at hr with htakes hno
  · rw [Bool.and_eq_true] at htakes
    rw [← hr] at hmem
    exact (mem_addData hmem).imp_right fun hx => ⟨htakes.2, hx⟩
  · rw [← hr] at hmem
    exact .inl hmem
  · rw [← hr] at hmem
    exact .inl hmem

lemma SameReceiver.shouldReceive {e' : TCPEndpoint α β} (h : SameReceiver e e') :
    e'.shouldReceive = e.shouldReceive := by
  unfold TCPEndpoint.shouldReceive
  rw [h.noReceive, h.state]

lemma state_enterTimeWait : e.enterTimeWait.state = e.state := by
  unfold enterTimeWait
  dsimp only
  split_ifs <;> rfl

lemma receiveAcknowledge_receiver {size advertisedWindow : ℕ} :
    let e' := (e.receiveAcknowledge segment size advertisedWindow).1
    e'.toReceiving = e.toReceiving ∧
      (e'.shouldReceive →
        e.shouldReceive ∨ !e.flags.noReceive ∧ e.state = .synchronizeReceived) := by
  unfold receiveAcknowledge
  dsimp only
  generalize he : (if e.state = .synchronizeReceived then { e with state := .established } else e) =
    e₁
  have hfirst : e₁.toReceiving = e.toReceiving ∧ (e₁.shouldReceive →
      e.shouldReceive ∨ !e.flags.noReceive ∧ e.state = .synchronizeReceived) := by
    split_ifs at he with hstate
    · rw [← he]
      refine ⟨rfl, ?_⟩
      intro hreceive
      exact .inr ⟨(Bool.and_eq_true _ _ ▸ hreceive).1, hstate⟩
    · rw [← he]
      exact ⟨rfl, Or.inl⟩
  -- every branch leaves the receiver alone, or ends in a state that does not receive
  have hsame : ∀ {e' : TCPEndpoint α β}, SameReceiver e₁ e' → e'.toReceiving = e.toReceiving ∧
      (e'.shouldReceive →
        e.shouldReceive ∨ !e.flags.noReceive ∧ e.state = .synchronizeReceived) := by
    intro e' h
    rw [h.receiving, h.shouldReceive]
    exact hfirst
  split_ifs with hmax hold hduplicate hfinish hclosed
  · exact hfirst
  · exact hsame sameReceiver_duplicateAcknowledge
  · exact hfirst
  · split
    · -- the endpoint goes on to receive while it waits for the finish flag of the peer
      rename_i hstate
      have hacknowledged := @sameReceiver_acknowledged _ _
        { e₁.setSending e₁.resetDuplicates with state := .finishAcknowledged } segment
      refine ⟨hacknowledged.receiving.trans hfirst.1, ?_⟩
      intro hreceive
      rw [hacknowledged.shouldReceive] at hreceive
      apply hfirst.2
      unfold TCPEndpoint.shouldReceive at hreceive ⊢
      have hsent : e₁.state = .finishSent := hstate
      rw [hsent]
      exact hreceive
    · refine ⟨toReceiving_enterTimeWait.trans hfirst.1, ?_⟩
      intro hreceive
      unfold TCPEndpoint.shouldReceive at hreceive
      rw [state_enterTimeWait] at hreceive
      simp at hreceive
    · refine ⟨hfirst.1, ?_⟩
      intro hreceive
      simp [TCPEndpoint.shouldReceive, close] at hreceive
    · exact hsame (sameReceiver_setSending.trans sameReceiver_acknowledged)
  · exact hsame (sameReceiver_setSending.trans sameReceiver_acknowledged)
  · exact hsame sameReceiver_setSending

lemma receiveAcknowledge_goesOn {size advertisedWindow : ℕ}
    (h : (e.receiveAcknowledge segment size advertisedWindow).2 = none) :
    e.sendMax.lt segment.acknowledge = false ∧
      segment.acknowledge.lt e.sendUnacknowledged = false := by
  unfold receiveAcknowledge at h
  dsimp only at h
  generalize he : (if e.state = .synchronizeReceived then { e with state := .established } else e) =
    e₁ at h
  have hsending : e₁.toSending = e.toSending := by
    rw [← he]
    split_ifs <;> rfl
  have hmax : e₁.sendMax = e.sendMax := congrArg Sending.sendMax hsending
  have hunacknowledged : e₁.sendUnacknowledged = e.sendUnacknowledged :=
    congrArg Sending.sendUnacknowledged hsending
  rw [hmax, hunacknowledged] at h
  split_ifs at h with hbeyond hold
  all_goals exact ⟨Bool.eq_false_of_not_eq_true hbeyond, Bool.eq_false_of_not_eq_true hold⟩

lemma queue_receiveReset : (e.receiveReset segment).receiveQueue = e.receiveQueue := by
  unfold receiveReset
  split_ifs <;> rfl

lemma refuses_of_shouldReceive (hreset : segment.flags.reset = false)
    (hfaulty : e.isFaulty segment = false)
    (hsequence : segment.sequence = e.receiveNext ∨
      segmentInSequence segment.sequence data.length e.receiveNext e.receiveWindow)
    (hacknowledge : segment.flags.acknowledge → segment.acknowledge = e.sendUnacknowledged ∨
      e.sendMax.lt segment.acknowledge = false ∧
        segment.acknowledge.lt e.sendUnacknowledged = false)
    (hreceive : e.shouldReceive ∨ e.flags.noReceive = false ∧ e.state = .synchronizeReceived ∧
      segment.flags.acknowledge) : e.refuses segment data.length = false := by
  have hwindow : (segment.sequence ≠ e.receiveNext &&
      !segmentInSequence segment.sequence data.length e.receiveNext e.receiveWindow) = false := by
    rcases hsequence with heq | hin
    · simp [heq]
    · simp [hin]
  have hlate : (segment.flags.acknowledge && segment.acknowledge ≠ e.sendUnacknowledged &&
      (e.sendMax.lt segment.acknowledge || segment.acknowledge.lt e.sendUnacknowledged)) =
        false := by
    cases hflag : segment.flags.acknowledge with
    | false => rfl
    | true =>
      rcases hacknowledge hflag with heq | hnew
      · simp [heq]
      · simp [hnew.1, hnew.2]
  have hstate : e.flags.noReceive = false ∧ (e.state = .established ∨ e.state = .finishSent ∨
      e.state = .finishAcknowledged ∨
      e.state = .synchronizeReceived ∧ segment.flags.acknowledge) := by
    rcases hreceive with hreceive | ⟨hno, hrest⟩
    · unfold TCPEndpoint.shouldReceive at hreceive
      simp only [Bool.and_eq_true, Bool.not_eq_true', Bool.or_eq_true, decide_eq_true_eq]
        at hreceive
      tauto
    · exact ⟨hno, .inr (.inr (.inr hrest))⟩
  unfold refuses
  rw [hstate.1, hreset]
  rcases hstate.2 with h | h | h | ⟨h, hflag⟩
  all_goals
    simp only [h, hfaulty, hwindow, hlate, Bool.false_or, Bool.or_false]
    simp [*]

lemma trim_segment (htrim : e.trimEnd (e.trimStart segment data).1 (e.trimStart segment data).2 =
      some (segment', data', immediate)) :
    segment'.acknowledge = segment.acknowledge ∧
      segment'.flags.acknowledge = segment.flags.acknowledge ∧ data' ⊆ data := by
  have hstart : (e.trimStart segment data).1.acknowledge = segment.acknowledge ∧
      (e.trimStart segment data).1.flags.acknowledge = segment.flags.acknowledge ∧
      (e.trimStart segment data).2 ⊆ data := by
    unfold trimStart
    dsimp only
    split_ifs
    · simp
    · exact ⟨rfl, rfl, List.drop_subset _ _⟩
    · exact ⟨rfl, rfl, List.Subset.refl _⟩
  unfold trimEnd at htrim
  dsimp only at htrim
  split_ifs at htrim
  all_goals
    have heq := Option.some.inj htrim
    rw [Prod.mk.injEq, Prod.mk.injEq] at heq
    rw [← heq.1, ← heq.2.1]
  · exact ⟨hstart.1, hstart.2.1, List.Subset.trans (List.take_subset _ _) hstart.2.2⟩
  · exact ⟨hstart.1, hstart.2.1, List.Subset.trans (List.take_subset _ _) hstart.2.2⟩
  · exact hstart

lemma ne_of_shouldReceive (h : e.shouldReceive) : e.state ≠ .closed ∧ e.state ≠ .timeWait := by
  unfold TCPEndpoint.shouldReceive at h
  simp only [Bool.and_eq_true, Bool.or_eq_true, decide_eq_true_eq] at h
  rcases h.2 with (h | h) | h <;> simp [h]

lemma mem_receiveTrimmed {segmentLength : ℕ}
    (h : x ∈ (e.receiveTrimmed segment data segmentLength immediate).1.receiveQueue.bytes) :
    x ∈ e.receiveQueue.bytes ∨ x ∈ data ∧
      (segment.flags.acknowledge → e.sendMax.lt segment.acknowledge = false ∧
        segment.acknowledge.lt e.sendUnacknowledged = false) ∧
      (e.shouldReceive ∨ e.flags.noReceive = false ∧ e.state = .synchronizeReceived ∧
        segment.flags.acknowledge) := by
  unfold receiveTrimmed at h
  dsimp only at h
  generalize hwindow : (segment.scaledWindow e.sendWindowShift.toNat).toNat = advertisedWindow at h
  split_ifs at h with hflag
  · have hreceiver := @receiveAcknowledge_receiver _ _
      (e.setSending (e.updateWindow advertisedWindow)) segment data.length advertisedWindow
    have hgoesOn := @receiveAcknowledge_goesOn _ _
      (e.setSending (e.updateWindow advertisedWindow)) segment data.length advertisedWindow
    generalize receiveAcknowledge (e.setSending (e.updateWindow advertisedWindow)) segment
      data.length advertisedWindow = r at h hreceiver hgoesOn
    have hqueue : r.1.receiveQueue = e.receiveQueue :=
      congrArg Receiving.receiveQueue hreceiver.1
    match r, h with
    | (_, some action), h => exact .inl (hqueue ▸ h)
    | (e', none), h =>
      rcases mem_receiveData h with hold | ⟨hreceive, hx⟩
      · exact .inl (hqueue ▸ hold)
      · refine .inr ⟨hx, fun _ => hgoesOn rfl, ?_⟩
        rcases hreceiver.2 hreceive with hreceive | ⟨hno, hstate⟩
        · exact .inl hreceive
        · have hno : e.flags.noReceive = false := Bool.not_eq_true' _ ▸ hno
          exact .inr ⟨hno, hstate, hflag⟩
  · rcases mem_receiveData h with hold | ⟨hreceive, hx⟩
    · exact .inl hold
    · exact .inr ⟨hx, fun hacknowledge => absurd hacknowledge hflag, .inl hreceive⟩

@[simp] lemma widenWindow_toSending : e.widenWindow.toSending = e.toSending := rfl

@[simp] lemma widenWindow_flags : e.widenWindow.flags = e.flags := rfl

@[simp] lemma widenWindow_state : e.widenWindow.state = e.state := rfl

@[simp] lemma widenWindow_queue : e.widenWindow.receiveQueue = e.receiveQueue := rfl

@[simp] lemma widenWindow_next : e.widenWindow.receiveNext = e.receiveNext := rfl

@[simp] lemma widenWindow_window : e.widenWindow.receiveWindow = e.window := rfl

@[simp] lemma widenWindow_shouldReceive : e.widenWindow.shouldReceive = e.shouldReceive := rfl

lemma mem_receiveStandard (hsmall : data.length < 2 ^ 16) 
    (h : x ∈ (e.receiveStandard segment data).1.receiveQueue.bytes) :
    x ∈ e.receiveQueue.bytes ∨ e.refuses segment data.length = false ∧ x ∈ data ∧
      (e.window < 2 ^ 31 → x ∈ data.take (keptLength segment.flags.finish segment.sequence e.receiveNext e.window)) := by
  unfold receiveStandard at h
  dsimp only at h
  split_ifs at h with hsequence hreset hfaulty
  · exact .inl h
  · rw [queue_receiveReset] at h
    exact .inl h
  · exact .inl h
  · cases htrim : e.widenWindow.trimEnd (e.widenWindow.trimStart segment data).1
      (e.widenWindow.trimStart segment data).2 with
    | none =>
      rw [htrim] at h
      exact .inl h
    | some rest =>
      obtain ⟨segment', data', immediate⟩ := rest
      have htrimmed := trim_segment htrim
      rw [htrim] at h
      have hadd := mem_receiveTrimmed h
      rw [widenWindow_toSending, widenWindow_flags, widenWindow_state, widenWindow_queue,
        widenWindow_shouldReceive, htrimmed.1, htrimmed.2.1] at hadd
      rcases hadd with hold | ⟨hx, hacknowledge, hreceive⟩
      · exact .inl hold
      · right
        have hreset : segment.flags.reset = false := Bool.eq_false_of_not_eq_true hreset
        have hfaulty : e.isFaulty segment = false := Bool.eq_false_of_not_eq_true hfaulty
        have hinside : segmentInSequence segment.sequence data.length e.receiveNext
            e.receiveWindow := by
          have hstate : e.state ≠ .closed ∧ e.state ≠ .timeWait := by
            rcases hreceive with hreceive | ⟨_, hstate, _⟩
            · exact ne_of_shouldReceive hreceive
            · simp [hstate]
          by_contra hout
          exact hsequence ⟨hstate.1, hstate.2, by simpa using hout⟩
        have hdata : x ∈ data := htrimmed.2.2 hx
        refine ⟨refuses_of_shouldReceive hreset hfaulty (.inr hinside)
          (fun hflag => .inr (hacknowledge hflag)) hreceive, hdata, ?_⟩
        intro hwindow
        have hsize : data.length ≠ 0 := by
          have := List.length_pos_of_mem hdata
          omega
        have hle : e.receiveWindow ≤ e.window := Nat.le_max_right _ _
        have hnear := near_of_segmentInSequence hinside hsize hsmall (by omega)
        apply mem_trim (e := e.widenWindow) _ _ _ hsmall hwindow htrim hx
        · exact hnear.2.1
        · rw [widenWindow_next, widenWindow_window]
          omega
        · rw [widenWindow_window]
          omega

lemma toSending_updateTimestamps : (e.updateTimestamps segment size).toSending = e.toSending := by
  unfold updateTimestamps
  split_ifs <;> rfl

lemma flags_updateTimestamps : (e.updateTimestamps segment size).flags = e.flags := by
  unfold updateTimestamps
  split_ifs <;> rfl

lemma predictHeader_goesOn (h : (e.predictHeader segment data).2 = none) :
    ∃ timestamp, (e.predictHeader segment data).1 = { e with receivedTimestamp := timestamp } := by
  have hupdate : ∃ timestamp, e.updateTimestamps segment data.length =
      { e with receivedTimestamp := timestamp } := by
    unfold updateTimestamps
    split_ifs
    · exact ⟨_, rfl⟩
    · exact ⟨e.receivedTimestamp, rfl⟩
  unfold predictHeader at h ⊢
  dsimp only at h ⊢
  split_ifs at h ⊢
  · exact hupdate
  · exact hupdate
  · exact ⟨e.receivedTimestamp, rfl⟩

lemma mem_predictHeader (h : x ∈ (e.predictHeader segment data).1.receiveQueue.bytes)
    (hends : (e.predictHeader segment data).2 ≠ none) :
    x ∈ e.receiveQueue.bytes ∨ e.refuses segment data.length = false ∧ x ∈ data ∧
      (e.window < 2 ^ 31 → x ∈ data.take (keptLength segment.flags.finish segment.sequence e.receiveNext e.window)) := by
  unfold predictHeader at h hends
  dsimp only at h hends
  split_ifs at h hends with hfast hempty hnew hnext
  · -- a pure acknowledge
    rw [sameReceiver_acknowledged.queue, queue_updateTimestamps] at h
    exact .inl h
  · exact absurd rfl hends
  · rcases mem_addData h with hold | hx
    · rw [queue_updateTimestamps] at hold
      exact .inl hold
    · obtain ⟨hstate, honly, hsequence, _⟩ := hfast
      rw [queue_updateTimestamps, flags_updateTimestamps, toSending_updateTimestamps] at hnext
      obtain ⟨hacknowledge, _, hfree, hno⟩ := hnext
      unfold Segment.acknowledgeOnly at honly
      simp only [Bool.and_eq_true, Bool.not_eq_true'] at honly hno
      obtain ⟨⟨⟨⟨_, hsynchronize⟩, _⟩, hreset⟩, _⟩ := honly
      have hfaulty : e.isFaulty segment = false := by
        unfold isFaulty
        rw [hsynchronize, hstate]
        rfl
      have hreceive : e.shouldReceive := by
        unfold TCPEndpoint.shouldReceive
        rw [hno, hstate]
        rfl
      refine .inr ⟨refuses_of_shouldReceive hreset hfaulty (.inl hsequence.symm)
        (fun _ => .inl hacknowledge) (.inl hreceive), hx, ?_⟩
      intro hwindow
      have hle : e.receiveQueue.free ≤ e.window := Nat.le_max_left _ _
      have hzero : (segment.sequence - e.receiveNext).toInt = 0 := by simp [hsequence]
      rw [List.take_of_length_le]
      · exact hx
      · unfold keptLength
        rw [hzero]
        split_ifs <;> omega
  · exact absurd rfl hends
  · exact absurd rfl hends

lemma mem_receive (hsmall : data.length < 2 ^ 16) 
    (h : x ∈ (e.receive segment data).1.receiveQueue.bytes) :
    x ∈ e.receiveQueue.bytes ∨ e.refuses segment data.length = false ∧ x ∈ data ∧
      (e.window < 2 ^ 31 → x ∈ data.take (keptLength segment.flags.finish segment.sequence e.receiveNext e.window)) := by
  unfold receive at h
  cases hpredict : e.predictHeader segment data with
  | mk e' action =>
    rw [hpredict] at h
    cases action with
    | some action =>
      apply mem_predictHeader
      · rw [hpredict]
        exact h
      · simp [hpredict]
    | none =>
      obtain ⟨timestamp, heq⟩ := predictHeader_goesOn (congrArg Prod.snd hpredict)
      rw [hpredict] at heq
      have heq : e' = { e with receivedTimestamp := timestamp } := heq
      rw [heq] at h
      exact mem_receiveStandard (e := { e with receivedTimestamp := timestamp }) hsmall h

lemma prepareReceivePath_receiver :
    (e.prepareReceivePath segment).1.receiveQueue.bytes = e.receiveQueue.bytes ∧
      (e.prepareReceivePath segment).1.window = e.window ∧
      (e.prepareReceivePath segment).1.flags.noReceive = e.flags.noReceive ∧
      (e.prepareReceivePath segment).1.receiveNext = segment.sequence + 1 := by
  unfold prepareReceivePath
  dsimp only
  split_ifs <;> exact ⟨rfl, rfl, rfl, rfl⟩

lemma synchronize_receiver :
    (e.synchronize segment).1.receiveQueue.bytes = e.receiveQueue.bytes ∧
      (e.synchronize segment).1.window = e.window ∧
      (e.synchronize segment).1.flags.noReceive = e.flags.noReceive ∧
      (e.synchronize segment).1.receiveNext = segment.sequence + 1 :=
  prepareReceivePath_receiver
    (e := e.setSending { e.toSending with sendUnacknowledged := segment.acknowledge })

/-- The number the first byte the endpoint receives next should have -/
def expected (e : TCPEndpoint α β) (segment : Segment) : Sequence :=
  if e.state = .synchronizeSent ∧ e.synchronizes segment then segment.sequence + 1
  else e.receiveNext

/-- What a segment adds to the queue is data in the window of a segment that is not refused. -/
def Adds (e : TCPEndpoint α β) (segment : Segment) (data : List α) (x : α) : Prop :=
  e.refuses segment data.length = false ∧ x ∈ data ∧ (e.window < 2 ^ 31 → x ∈ data.take
    (keptLength segment.flags.finish segment.firstByte (e.expected segment) e.window))

lemma mem_synchronizeSentReceive (hsmall : data.length < 2 ^ 16)
    (hstate : e.state = .synchronizeSent)
    (h : x ∈ (e.synchronizeSentReceive segment data).1.receiveQueue.bytes) :
    x ∈ e.receiveQueue.bytes ∨ e.Adds segment data x := by
  unfold synchronizeSentReceive at h
  split_ifs at h with hbad hreset hsynchronize
  · exact .inl h
  · exact .inl h
  · exact .inl h
  · obtain ⟨hbytes, hwindow, hno, hnext⟩ := @synchronize_receiver _ _ e segment
    have hsyn : segment.flags.synchronize := by simpa using hsynchronize
    have hsynchronizes : e.synchronizes segment := by
      simp [synchronizes, hbad, hreset, hsyn]
    rcases mem_receive hsmall h with hold | ⟨hrefuses, hx, htake⟩
    · rw [hbytes] at hold
      exact .inl hold
    · rw [hwindow, hnext] at htake
      -- in either state after the SYN the segment has to acknowledge the endpoint's own one
      have hflag : segment.flags.acknowledge := by
        by_contra hflag
        have hstate' : (e.synchronize segment).1.state = .synchronizeReceived := if_neg hflag
        have hflag' : (e.synchronize segment).2.flags.acknowledge = false :=
          Bool.eq_false_of_not_eq_true hflag
        unfold refuses at hrefuses
        simp [hstate', hflag'] at hrefuses
      have hno' : e.flags.noReceive = false := by
        unfold refuses at hrefuses
        simp only [Bool.or_eq_false_iff] at hrefuses
        exact hno ▸ hrefuses.1.1
      refine .inr ⟨?_, hx, ?_⟩
      · unfold refuses
        rw [hno', Bool.eq_false_of_not_eq_true hreset, hstate]
        simp [hsynchronizes, hflag]
      · intro hsmaller
        have hfirst : segment.firstByte = segment.sequence + 1 := if_pos hsyn
        have hexpected : e.expected segment = segment.sequence + 1 :=
          if_pos ⟨hstate, hsynchronizes⟩
        rw [hfirst, hexpected]
        exact htake hsmaller

lemma not_synchronize_of_accepted (hstate : e.state ≠ .synchronizeSent)
    (h : e.refuses segment size = false) : ¬segment.flags.synchronize := by
  intro hsynchronize
  have hfaulty : e.isFaulty segment := by simp [isFaulty, hsynchronize]
  unfold refuses at h
  simp only [Bool.or_eq_false_iff] at h
  have hlast := h.2
  split at hlast
  · exact hstate ‹_›
  all_goals simp [hfaulty] at hlast

lemma mem_segmentReceived (hsmall : data.length < 2 ^ 16)
    (h : x ∈ (e.segmentReceived segment data).1.receiveQueue.bytes) :
    x ∈ e.receiveQueue.bytes ∨ e.Adds segment data x := by
  have hdispatch : x ∈ (e.dispatch segment data).1.receiveQueue.bytes := by
    unfold segmentReceived at h
    dsimp only at h
    split_ifs at h
    · rw [sameReceiver_sendAcknowledge.queue] at h
      exact h
    · rw [sameReceiver_delayedAcknowledge.queue] at h
      exact h
    · exact h
  unfold dispatch at hdispatch
  split at hdispatch
  · exact .inl hdispatch
  · rename_i hstate
    exact mem_synchronizeSentReceive hsmall hstate hdispatch
  · rename_i _ hstate
    rcases mem_receive hsmall hdispatch with hold | ⟨hrefuses, hx, htake⟩
    · exact .inl hold
    · refine .inr ⟨hrefuses, hx, ?_⟩
      have hfirst : segment.firstByte = segment.sequence :=
        if_neg (not_synchronize_of_accepted hstate hrefuses)
      have hexpected : e.expected segment = e.receiveNext := if_neg fun h => hstate h.1
      rw [hfirst, hexpected]
      exact htake

/-! ## What the other calls leave alone -/

lemma queue_prepareSendPath {path : Path} :
    (e.prepareSendPath path).1.receiveQueue = e.receiveQueue := by
  unfold prepareSendPath
  split_ifs <;> rfl

lemma state_prepareSendPath {path : Path} : (e.prepareSendPath path).1.state = e.state := by
  unfold prepareSendPath
  split_ifs <;> rfl

lemma state_prepareReceivePath : (e.prepareReceivePath segment).1.state = e.state := by
  unfold prepareReceivePath
  dsimp only
  split_ifs <;> rfl

lemma refuses_of_synchronizeReceived (hstate : e.state = .synchronizeReceived)
    (hflag : segment.flags.acknowledge = false) : e.refuses segment size := by
  unfold refuses
  simp [hstate, hflag]

lemma mem_spawn {noDelay noOptions isBound : Bool} {path : Path}
    (hsmall : data.length < 2 ^ 16) (hflag : segment.flags.acknowledge = false)
    (h : x ∈ (e.spawn noDelay noOptions isBound path segment data).1.receiveQueue.bytes) :
    x ∈ e.receiveQueue.bytes := by
  have hsendPath := @queue_prepareSendPath _ _ { e with state := .synchronizeReceived } path
  have hstate := @state_prepareSendPath _ _ { e with state := .synchronizeReceived } path
  unfold spawn at h
  dsimp only at h hsendPath hstate
  generalize prepareSendPath { e with state := .synchronizeReceived } path = r
    at h hsendPath hstate
  have hreceivePath := @prepareReceivePath_receiver _ _
    { r.1 with noDelay := noDelay, noOptions := noOptions } segment
  have hstate' := @state_prepareReceivePath _ _
    { r.1 with noDelay := noDelay, noOptions := noOptions } segment
  have hbytes : r.1.receiveQueue.bytes = e.receiveQueue.bytes := by rw [hsendPath]
  split_ifs at h with hbound hprepared hsent
  · exact h
  · exact hbytes ▸ h
  · rw [sameReceiver_sendQueued.queue, hreceivePath.1] at h
    exact hbytes ▸ h
  · rcases mem_receive hsmall h with hold | ⟨hrefuses, _⟩
    · rw [sameReceiver_sendQueued.queue, hreceivePath.1] at hold
      exact hbytes ▸ hold
    · rw [refuses_of_synchronizeReceived] at hrefuses
      · simp at hrefuses
      · rw [sameReceiver_sendQueued.state, hstate']
        exact hstate
      · exact hflag

lemma queue_connect {path : Path} : (e.connect path).receiveQueue = e.receiveQueue := by
  unfold connect
  dsimp only
  split_ifs
  · rfl
  · exact queue_prepareSendPath
  · exact sameReceiver_sendQueued.queue.trans queue_prepareSendPath
  · exact sameReceiver_sendQueued.queue.trans queue_prepareSendPath

lemma queue_disconnect : e.disconnect.1.receiveQueue = e.receiveQueue :=
  congrArg Receiving.receiveQueue toReceiving_disconnect

lemma queue_closeSocket : e.closeSocket.receiveQueue = e.receiveQueue := by
  unfold closeSocket
  split_ifs
  · rfl
  · exact queue_disconnect

lemma queue_free : e.free.receiveQueue = e.receiveQueue := by
  unfold free
  split
  · rfl
  · rfl
  · rfl
  · exact congrArg Receiving.receiveQueue toReceiving_enterTimeWait

lemma queue_shutdown {read write : Bool} :
    (e.shutdown read write).receiveQueue = e.receiveQueue := by
  unfold shutdown
  dsimp only
  split_ifs
  · exact queue_disconnect
  · rfl

lemma queue_sendNow {outOfBand endOfFile : Bool} :
    (e.sendNow outOfBand endOfFile).receiveQueue = e.receiveQueue := by
  unfold sendNow
  dsimp only
  split_ifs
  all_goals
    first
    | rfl
    | exact queue_disconnect
    | exact sameReceiver_sendQueued.queue
    | exact sameReceiver_sendQueued.queue.trans queue_disconnect

variable {lowWaterMark : ℕ}

lemma queue_sendData {payload : List β} {outOfBand endOfFile : Bool} :
    (e.sendData payload outOfBand endOfFile lowWaterMark).1.receiveQueue = e.receiveQueue := by
  unfold sendData
  dsimp only
  split_ifs
  · rfl
  · rfl
  · rfl
  · exact queue_sendNow

variable {numBytes : ℕ} {flags : ReadFlags}

lemma mem_takeData (h : x ∈ (e.takeData numBytes flags).1.receiveQueue.bytes) :
    x ∈ e.receiveQueue.bytes := by
  unfold takeData at h
  dsimp only at h
  have hbytes : x ∈ (e.receiveQueue.get numBytes !flags.peek).1.bytes := by
    split_ifs at h
    · exact h
    · rw [sameReceiver_sendAcknowledge.queue] at h
      exact h
  exact BufferQueue.mem_get hbytes

lemma mem_awaitData (h : x ∈ (e.awaitData numBytes flags lowWaterMark).1.receiveQueue.bytes) :
    x ∈ e.receiveQueue.bytes := by
  unfold awaitData at h
  dsimp only at h
  split_ifs at h
  all_goals
    first
    | exact h
    | exact mem_takeData h

lemma mem_readData {point : ReadPoint}
    (h : x ∈ (e.readData point numBytes flags lowWaterMark).1.receiveQueue.bytes) :
    x ∈ e.receiveQueue.bytes := by
  unfold readData at h
  split at h
  · split_ifs at h
    all_goals
      first
      | exact h
      | exact mem_awaitData h
  · split_ifs at h
    all_goals
      first
      | exact h
      | exact mem_awaitData h
  · exact mem_awaitData h

lemma queue_retransmit : e.retransmit.receiveQueue = e.receiveQueue :=
  sameReceiver_sendQueued.queue

lemma queue_persist : e.persist.receiveQueue = e.receiveQueue := by
  unfold persist
  dsimp only
  split_ifs
  · rfl
  · exact sameReceiver_sendQueued.queue

lemma queue_acknowledgeLate : e.acknowledgeLate.receiveQueue = e.receiveQueue := by
  unfold acknowledgeLate
  dsimp only
  split_ifs
  · rfl
  · exact sameReceiver_sendAcknowledge.queue

lemma queue_endTimeWait : e.endTimeWait.receiveQueue = e.receiveQueue := by
  unfold endTimeWait
  dsimp only
  split_ifs <;> rfl

lemma mem_perform {action : EndpointAction α β} (henabled : e.enabled action)
    (h : x ∈ (e.perform action).receiveQueue.bytes) :
    x ∈ e.receiveQueue.bytes ∨
      ∃ segment data, action = .segmentReceived segment data ∧ e.Adds segment data x := by
  cases action with
  | connect path => exact .inl (queue_connect (e := e) ▸ h)
  | listen =>
    left
    unfold perform listen at h
    dsimp only at h
    split_ifs at h <;> exact h
  | spawn noDelay noOptions isBound path segment data =>
    unfold enabled at henabled
    simp only [Bool.and_eq_true, Bool.not_eq_true', decide_eq_true_eq] at henabled
    exact .inl (mem_spawn henabled.2 henabled.1.2 h)
  | segmentReceived segment data =>
    unfold enabled at henabled
    exact (mem_segmentReceived (of_decide_eq_true henabled) h).imp_right
      fun hadds => ⟨segment, data, rfl, hadds⟩
  | readData point numBytes flags lowWaterMark => exact .inl (mem_readData h)
  | sendData data outOfBand endOfFile lowWaterMark => exact .inl (queue_sendData (e := e) ▸ h)
  | shutdown read write => exact .inl (queue_shutdown (e := e) ▸ h)
  | close => exact .inl (queue_closeSocket (e := e) ▸ h)
  | free => exact .inl (queue_free (e := e) ▸ h)
  | retransmitTimer => exact .inl (queue_retransmit (e := e) ▸ h)
  | persistTimer => exact .inl (queue_persist (e := e) ▸ h)
  | delayedAcknowledgeTimer => exact .inl (queue_acknowledgeLate (e := e) ▸ h)
  | timeWaitTimer => exact .inl (queue_endTimeWait (e := e) ▸ h)
  | setSendBufferSize length => exact .inl h
  | setReceiveBufferSize length => exact .inl h
  | setNoDelay noDelay => exact .inl h

end TCPEndpoint

end Haiku.TCP
