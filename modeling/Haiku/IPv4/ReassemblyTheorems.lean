import Haiku.IPv4.FragmentTheorems

/-!
# Reassembled datagrams

What `reassemble_fragments()` does for the fragments of a datagram, and in any run with fragments of
many datagrams: a buffer is returned when the whole payload was received, and it has the payload
behind a header that was received with the first bytes.
-/

namespace Haiku.IPv4

open Function Lib Lock

variable {payload : List UInt8} {received : List Fragment} {buffer : NetBuffer}

/-! ## The fragments of a datagram -/

/-- A packet is a fragment of a datagram with this payload: behind its header it has a slice of the
payload, and it is the last fragment if it has the end of it. -/
structure IsFragment (payload : List UInt8) (header : Header) (buffer : NetBuffer) : Prop where
  lt : header.headerLength < header.totalLength
  le : header.start + header.totalLength - header.headerLength ≤ payload.length
  last : header.isLast =
    decide (header.start + header.totalLength - header.headerLength = payload.length)
  length : header.headerLength ≤ buffer.data.length
  data : buffer.data.drop header.headerLength = slice payload header.start
    (header.start + header.totalLength - header.headerLength)

/-- Where the fragment is in the payload, and its header. -/
def fragmentOf (header : Header) (buffer : NetBuffer) : Fragment where
  start := header.start
  stop := header.start + header.totalLength - header.headerLength
  header := buffer.data.take header.headerLength

/-- What is returned when this was received: nothing as long as bytes are missing, and then the
payload behind the header of a first fragment. -/
def Delivers (payload : List UInt8) (received : List Fragment) (result : Result) : Prop :=
  (¬Covers payload received → result = .incomplete) ∧
    (Covers payload received → ∃ buffer f, result = .complete buffer ∧ f ∈ received ∧
      f.start = 0 ∧ buffer.data = f.header ++ payload)

variable {header : Header} {hash : FragmentHash}

lemma IsFragment.stop_eq (h : IsFragment payload header buffer) (hle : payload.length ≤ 65535) :
    header.stop = header.start + header.totalLength - header.headerLength := by
  have hlt := h.lt
  have hstop := h.le
  unfold Header.stop
  omega

lemma Holds.receive (h : Holds payload received ((hash header.key).getD .init))
    (hf : IsFragment payload header buffer)
    (hclean : Clean ((hash header.key).getD .init).fragments header.start header.stop)
    (hfresh : ∀ b ∈ ((hash header.key).getD .init).fragments, b.address ≠ buffer.address)
    (hincomplete : ((hash header.key).getD .init).isComplete = false) :
    ∃ hash' result, reassembleFragments hash header buffer = some (hash', result) ∧
      Delivers payload (received ++ [fragmentOf header buffer]) result ∧
      (∀ key, key ≠ header.key → hash' key = hash key) ∧
      ((∃ b, result = .complete b ∧ hash' header.key = none) ∨
        result = .incomplete ∧ ∃ packet, hash' header.key = some packet ∧
          packet.isComplete = false ∧
          Holds payload (received ++ [fragmentOf header buffer]) packet) := by
  have hle := h.payload_le
  have hstop := hf.stop_eq hle
  have hlt := hf.lt
  have hfle := hf.le
  generalize hbuffer :
    (if header.start ≠ 0 then buffer.removeHeader header.headerLength else buffer) =
    stripped
  have haddress : stripped.address = buffer.address := by
    rw [← hbuffer]
    unfold NetBuffer.removeHeader
    split
    · split <;> rfl
    · rfl
  -- the header is kept with the first fragment only
  have hdata : stripped.data = (if (fragmentOf header buffer).start = 0 then
      (fragmentOf header buffer).header else []) ++
      slice payload (fragmentOf header buffer).start (fragmentOf header buffer).stop := by
    show stripped.data = (if header.start = 0 then buffer.data.take header.headerLength else []) ++
      slice payload header.start (header.start + header.totalLength - header.headerLength)
    rw [← hbuffer, ← hf.data]
    by_cases hzero : header.start = 0
    · rw [if_neg (by simpa using hzero), if_pos hzero, List.take_append_drop]
    · have hlength := hf.length
      unfold NetBuffer.removeHeader NetBuffer.size
      rw [if_pos hzero, if_neg hzero, if_neg (by omega)]
      rfl
  rw [hstop] at hclean
  obtain ⟨packet, hadd, hholds, hmem⟩ := h.addFragment (f := fragmentOf header buffer)
    (by show header.start < header.start + header.totalLength - header.headerLength; omega)
    hfle hclean hdata (by rw [haddress]; exact hfresh)
  have hadd : FragmentPacket.addFragment ((hash header.key).getD .init) header.start header.stop
      stripped header.isLast = (packet, .ok) := by
    rw [hstop, hf.last]
    exact hadd
  unfold reassembleFragments
  dsimp only
  rw [hbuffer, hadd]
  dsimp only
  rw [if_neg (by simp)]
  have hcovers := hholds.isComplete_iff
  by_cases hcomplete : packet.isComplete = true
  · have hmem : ∃ b ∈ packet.fragments, b.address = stripped.address := by
      rcases hmem with hsame | hmem
      · rw [hsame, hincomplete] at hcomplete
        cases hcomplete
      · exact hmem
    obtain ⟨r, f, hr, _, hfmem, hfstart, hrdata⟩ := hholds.reassemble hcomplete hmem
    rw [if_pos hcomplete, hr, Option.map_some]
    refine ⟨_, _, rfl, ⟨?_, ?_⟩, ?_, .inl ⟨r, rfl, update_self _ _ _⟩⟩
    · intro hnot
      exact absurd (hcovers.1 hcomplete) hnot
    · intro _
      exact ⟨r, f, rfl, hfmem, hfstart, hrdata⟩
    · intro key hkey
      rw [update_of_ne hkey, update_of_ne hkey]
  · rw [if_neg hcomplete]
    refine ⟨_, _, rfl, ⟨fun _ => rfl, ?_⟩, ?_, .inr ⟨rfl, packet, update_self _ _ _, ?_,
      hholds⟩⟩
    · intro hall
      exact absurd (hcovers.2 hall) hcomplete
    · intro key hkey
      rw [update_of_ne hkey]
    · simpa using hcomplete

def packetFor (hash : FragmentHash) (key : PacketKey) : FragmentPacket := (hash key).getD .init

lemma packetFor_of_some {key : PacketKey} {packet : FragmentPacket} (h : hash key = some packet) :
    packetFor hash key = packet := by
  unfold packetFor
  rw [h]
  rfl

lemma packetFor_of_none {key : PacketKey} (h : hash key = none) : packetFor hash key = .init := by
  unfold packetFor
  rw [h]
  rfl

lemma packetFor_congr {key : PacketKey} {hash' : FragmentHash} (h : hash' key = hash key) :
    packetFor hash' key = packetFor hash key := by
  unfold packetFor
  rw [h]

/-! ## Runs -/

inductive Action
  | receive (header : Header) (buffer : NetBuffer)
  | timeout (key : PacketKey)

/-- The table of packets, with what was received for them since there is a packet. -/
structure State where
  hash : FragmentHash
  received : PacketKey → List Fragment

def State.init : State := ⟨fun _ => none, fun _ => []⟩

def State.note (s : State) (header : Header) (buffer : NetBuffer) :
    Result → PacketKey → List Fragment
  | .error _ => s.received
  | .incomplete => update s.received header.key
    (s.received header.key ++ [fragmentOf header buffer])
  | .complete _ => update s.received header.key []

def step (s : State) : Action → Option State
  | .receive header buffer => (reassembleFragments s.hash header buffer).map fun r =>
    ⟨r.1, s.note header buffer r.2⟩
  | .timeout key => some ⟨staleTimer s.hash key, update s.received key []⟩

/-- Only fragments of the datagrams come in, each in a buffer of its own. -/
def Arrives (payloads : PacketKey → List UInt8) (s : State) : Action → Prop
  | .receive header buffer => IsFragment (payloads header.key) header buffer ∧
    ∀ b ∈ (packetFor s.hash header.key).fragments, b.address ≠ buffer.address
  | .timeout _ => True

/-- They do not overlap what is there in a way that is not handled. -/
def ArrivesClean (payloads : PacketKey → List UInt8) (s : State) (a : Action) : Prop :=
  Arrives payloads s a ∧
    match a with
    | .receive header _ => Clean (packetFor s.hash header.key).fragments header.start header.stop
    | .timeout _ => True

variable {payloads : PacketKey → List UInt8}

/-- Every packet holds what was received for it, and is not complete yet. -/
def State.Inv (payloads : PacketKey → List UInt8) (s : State) : Prop :=
  ∀ key, Holds (payloads key) (s.received key) (packetFor s.hash key) ∧ (packetFor s.hash key).isComplete = false

lemma inv_init (hle : ∀ key, (payloads key).length ≤ 65535) : State.init.Inv payloads :=
  fun key => ⟨holds_init (hle key), rfl⟩

lemma State.Inv.receive {s : State} (h : s.Inv payloads)
    (ha : ArrivesClean payloads s (.receive header buffer)) :
    ∃ hash result, reassembleFragments s.hash header buffer = some (hash, result) ∧
      Delivers (payloads header.key) (s.received header.key ++ [fragmentOf header buffer]) result ∧
      State.Inv payloads ⟨hash, s.note header buffer result⟩ := by
  obtain ⟨⟨hf, hfresh⟩, hclean⟩ := ha
  obtain ⟨hholds, hincomplete⟩ := h header.key
  have hle := hholds.payload_le
  have hpacket : Holds (payloads header.key) (s.received header.key)
      ((s.hash header.key).getD .init) := hholds
  obtain ⟨hash, result, hresult, hdelivers, hothers, hown⟩ :=
    hpacket.receive hf hclean hfresh hincomplete
  refine ⟨hash, result, hresult, hdelivers, ?_⟩
  intro key
  by_cases hkey : key = header.key
  · subst hkey
    rcases hown with ⟨b, hcomplete, hnone⟩ | ⟨hresult, packet, hsome, hnot, hpacket⟩
    · -- the packet is gone
      have hreceived : s.note header buffer (.complete b) header.key = [] :=
        update_self _ _ _
      subst hcomplete
      dsimp only
      rw [packetFor_of_none hnone, hreceived]
      exact ⟨holds_init hle, rfl⟩
    · have hreceived : s.note header buffer .incomplete header.key =
          s.received header.key ++ [fragmentOf header buffer] := update_self _ _ _
      subst hresult
      dsimp only
      rw [packetFor_of_some hsome, hreceived]
      exact ⟨hpacket, hnot⟩
  · have hreceived : s.note header buffer result key = s.received key := by
      cases result with
      | error status => rfl
      | incomplete => exact update_of_ne hkey _ _
      | complete b => exact update_of_ne hkey _ _
    dsimp only
    rw [packetFor_congr (hothers key hkey), hreceived]
    exact h key

lemma State.Inv.step {s s' : State} {a : Action} (h : s.Inv payloads)
    (ha : ArrivesClean payloads s a) (hstep : step s a = some s') : s'.Inv payloads := by
  cases a with
  | receive header buffer =>
    obtain ⟨hash, result, hresult, _, hinv⟩ := h.receive ha
    unfold IPv4.step at hstep
    dsimp only at hstep
    rw [hresult, Option.map_some] at hstep
    cases hstep
    exact hinv
  | timeout key =>
    cases hstep
    intro key'
    dsimp only
    by_cases hkey : key' = key
    · subst hkey
      have hnone : staleTimer s.hash key' key' = none := update_self _ _ _
      rw [packetFor_of_none hnone, update_self]
      exact ⟨holds_init (h key').1.payload_le, rfl⟩
    · have hsame : staleTimer s.hash key key' = s.hash key' := update_of_ne hkey _ _
      rw [packetFor_congr hsame, update_of_ne hkey]
      exact h key'

/-- Whatever came before, a fragment completes its datagram exactly when nothing is missing anymore,
and what is returned then is the header and the payload. -/
theorem reassembled {hist : History State Action} {s : State}
    (hle : ∀ key, (payloads key).length ≤ 65535)
    (hr : Run step (ArrivesClean payloads) .init hist s)
    (ha : ArrivesClean payloads s (.receive header buffer)) :
    ∃ hash result, reassembleFragments s.hash header buffer = some (hash, result) ∧
      Delivers (payloads header.key) (s.received header.key ++ [fragmentOf header buffer])
        result := by
  have hinv : s.Inv payloads :=
    hr.invariant (I := State.Inv payloads) (inv_init hle) State.Inv.step
  obtain ⟨hash, result, hresult, hdelivers, _⟩ := hinv.receive ha
  exact ⟨hash, result, hresult, hdelivers⟩

/-! ## Examples of runs -/

instance : Decidable (IsFragment payload header buffer) :=
  decidable_of_iff (header.headerLength < header.totalLength ∧
    header.start + header.totalLength - header.headerLength ≤ payload.length ∧
    header.isLast =
      decide (header.start + header.totalLength - header.headerLength = payload.length) ∧
    header.headerLength ≤ buffer.data.length ∧
    buffer.data.drop header.headerLength = slice payload header.start
      (header.start + header.totalLength - header.headerLength))
    ⟨fun h => ⟨h.1, h.2.1, h.2.2.1, h.2.2.2.1, h.2.2.2.2⟩,
      fun h => ⟨h.lt, h.le, h.last, h.length, h.data⟩⟩

instance (buffers : List NetBuffer) (start stop : ℕ) : Decidable (Clean buffers start stop) :=
  inferInstanceAs (Decidable (_ ∨ _))

instance (payload : List UInt8) (received : List Fragment) : Decidable (Covers payload received) :=
  inferInstanceAs (Decidable ((∀ x < payload.length, ∃ s ∈ received.map Fragment.span,
    s.1 ≤ x ∧ x < s.2) ∧ ∃ f ∈ received, f.stop = payload.length))

instance (s : State) : (a : Action) → Decidable (Arrives payloads s a)
  | .receive _ _ => inferInstanceAs (Decidable (_ ∧ _))
  | .timeout _ => .isTrue trivial

instance (s : State) : (a : Action) → Decidable (ArrivesClean payloads s a)
  | .receive _ _ => inferInstanceAs (Decidable (_ ∧ _))
  | .timeout _ => .isTrue ⟨trivial, trivial⟩

lemma arrives_of_decide (s : State) (a : Action) (h : decide (Arrives payloads s a) = true) :
    Arrives payloads s a := of_decide_eq_true h

lemma arrivesClean_of_decide (s : State) (a : Action)
    (h : decide (ArrivesClean payloads s a) = true) : ArrivesClean payloads s a :=
  of_decide_eq_true h

def Result.length : Result → ℕ
  | .complete buffer => buffer.data.length
  | _ => 0

def somePayload : PacketKey → List UInt8 := fun _ => (List.range 24).map UInt8.ofNat

lemma somePayload_length (key : PacketKey) : (somePayload key).length ≤ 65535 := by
  show ((List.range 24).map UInt8.ofNat).length ≤ 65535
  simp

def someHeader (start stop : ℕ) : Header where
  key := ⟨1, 2, 3, 17⟩
  headerLength := 20
  totalLength := 20 + (stop - start)
  fragmentOffset := start / 8 + if stop = 24 then 0 else moreFragments

def someBuffer (address start stop : ℕ) : NetBuffer where
  address := address
  data := List.replicate 20 69 ++ slice (somePayload ⟨1, 2, 3, 17⟩) start stop
  start := 0
  stop := 0

def someFragment (address start stop : ℕ) : Action :=
  .receive (someHeader start stop) (someBuffer address start stop)

/-- The last fragment, the first one, and the first one again. -/
def someFragments : List Action := [someFragment 1 16 24, someFragment 2 0 8, someFragment 3 0 8]

/-- What is missing then completes the datagram. -/
theorem reassembled_someFragments : ∃ hash buffer, ∃ f : Fragment,
    reassembleFragments (outcome step .init someFragments).hash (someHeader 8 16)
      (someBuffer 4 8 16) = some (hash, .complete buffer) ∧ f.start = 0 ∧
      buffer.data = f.header ++ (List.range 24).map UInt8.ofNat := by
  obtain ⟨hist, hr, _⟩ := run_outcome step (@arrivesClean_of_decide somePayload) .init someFragments
    (fun _ => true) (by decide)
  have hlast :
    ArrivesClean somePayload (outcome step .init someFragments) (someFragment 4 8 16) := by
    decide
  obtain ⟨hash, result, hresult, _, hcomplete⟩ := reassembled somePayload_length hr hlast
  obtain ⟨buffer, f, hbuffer, _, hstart, hdata⟩ := hcomplete (by decide)
  rw [hbuffer] at hresult
  exact ⟨hash, buffer, f, hresult, hstart, hdata⟩

/-- A fragment from the middle, and then a first one that overlaps it. -/
def overlapping : List Action := [someFragment 1 8 16, someFragment 2 0 16]

/-- The bytes that both fragments have come twice in the datagram that the last one completes. -/
theorem overlap_duplicated : ∃ (payloads : PacketKey → List UInt8) (hist : History State Action)
    (s : State) (header : Header) (buffer : NetBuffer),
    (∀ key, (payloads key).length ≤ 65535) ∧ Run step (Arrives payloads) .init hist s ∧
      Arrives payloads s (.receive header buffer) ∧
      ¬∃ hash result, reassembleFragments s.hash header buffer = some (hash, result) ∧
        Delivers (payloads header.key) (s.received header.key ++ [fragmentOf header buffer])
          result := by
  obtain ⟨hist, hr, _⟩ := run_outcome step (@arrives_of_decide somePayload) .init overlapping
    (fun _ => true) (by decide)
  refine ⟨somePayload, hist, _, someHeader 16 24, someBuffer 3 16 24, somePayload_length, hr,
    by decide, ?_⟩
  rintro ⟨hash, result, hresult, _, hcomplete⟩
  obtain ⟨buffer, f, hbuffer, hf, _, hdata⟩ := hcomplete (by decide)
  have hlengths : ∀ f ∈ (outcome step .init overlapping).received (someHeader 16 24).key ++
      [fragmentOf (someHeader 16 24) (someBuffer 3 16 24)], f.header.length = 20 := by
    decide
  have hlength : ((reassembleFragments (outcome step .init overlapping).hash (someHeader 16 24)
      (someBuffer 3 16 24)).any fun r => r.2.length = 52) = true := by
    decide
  rw [hresult, hbuffer, Option.any_some, decide_eq_true_eq] at hlength
  have hlength : buffer.data.length = 52 := hlength
  rw [hdata, List.length_append, hlengths f hf] at hlength
  have hpayload : (somePayload (someHeader 16 24).key).length = 24 := by decide
  omega

end Haiku.IPv4
