import Haiku.IPv4.ReassemblyTheorems
import Mathlib.Data.Nat.Bitwise

/-!
# Sending fragments

`send_fragments()`, and what `reassemble_fragments()` makes of the fragments that it sends, in any
order. Allocations and sending succeed.
-/

namespace Haiku.IPv4

/-- A datagram: what its header is when the length and the offset have been written to it, and the
payload. -/
structure Datagram where
  key : PacketKey
  headerLength : ℕ
  header : ℕ → ℕ → List UInt8
  length_header : ∀ totalLength fragmentOffset,
    (header totalLength fragmentOffset).length = headerLength
  payload : List UInt8

structure Sent where
  header : Header
  data : List UInt8

def Datagram.fragment (d : Datagram) (fragmentOffset : ℕ) (bytes : List UInt8)
    (lastFragment : Bool) : Sent :=
  let totalLength := (bytes.length + d.headerLength) % 2 ^ 16
  let fragmentOffset := (if lastFragment then 0 else moreFragments) ||| fragmentOffset >>> 3
  ⟨⟨d.key, d.headerLength, totalLength, fragmentOffset⟩,
    d.header totalLength fragmentOffset ++ bytes⟩

/-- The loop of `send_fragments()`, over the payload that is left -/
def Datagram.sendLoop (d : Datagram) (mtu : ℕ) : ℕ → ℕ → List UInt8 → Option (List Sent)
  | 0, _, _ => none
  | fuel + 1, fragmentOffset, buffer =>
    if buffer.length = 0 then some []
    else
      let fragmentLength := min buffer.length mtu
      let lastFragment := buffer.length - fragmentLength = 0
      if lastFragment then some [d.fragment fragmentOffset buffer true]
      else
        (d.sendLoop mtu fuel (fragmentOffset + fragmentLength) (buffer.drop fragmentLength)).map
          (d.fragment fragmentOffset (buffer.take fragmentLength) false :: ·)

/-- `send_fragments()`; the MTU is adapted to be a multiple of 8. -/
def Datagram.sendFragments (d : Datagram) (mtu fuel : ℕ) : Option (List Sent) :=
  d.sendLoop ((mtu - d.headerLength) / 8 * 8) fuel 0 d.payload

structure Arrival where
  sent : Sent
  address : ℕ
  start : ℕ
  stop : ℕ

def Arrival.buffer (a : Arrival) : NetBuffer := ⟨a.address, a.sent.data, a.start, a.stop⟩

/-- `reassemble_fragments()` for one fragment after the other -/
def feed : FragmentHash → List Arrival → Option (FragmentHash × List Result)
  | hash, [] => some (hash, [])
  | hash, a :: arrivals =>
    (reassembleFragments hash a.sent.header a.buffer).bind fun (hash, result) =>
      (feed hash arrivals).map fun (hash, results) => (hash, result :: results)

/-! ## The fragments that are sent -/

def Apart (f g : Fragment) : Prop := f.stop ≤ g.start ∨ g.stop ≤ f.start

def Sent.fragment (f : Sent) : Fragment := fragmentOf f.header ⟨0, f.data, 0, 0⟩

def Arrival.fragment (a : Arrival) : Fragment := a.sent.fragment

/-- What the fragments from `off` on have to be: fragments of the datagram no longer than the MTU, no
two of which have a byte in common, and all of which together have the rest of the payload. -/
structure Covering (d : Datagram) (mtu off : ℕ) (sent : List Sent) : Prop where
  fragment : ∀ f ∈ sent, ∀ address start stop,
    IsFragment d.payload f.header ⟨address, f.data, start, stop⟩
  same : ∀ f ∈ sent, f.header.key = d.key ∧ f.header.headerLength = d.headerLength ∧
    f.data.length ≤ d.headerLength + mtu
  behind : ∀ f ∈ sent, off ≤ f.fragment.start
  apart : sent.Pairwise fun f g => Apart f.fragment g.fragment
  covers : ∀ x, off ≤ x → x < d.payload.length →
    ∃ f ∈ sent, f.fragment.start ≤ x ∧ x < f.fragment.stop

section
variable {d : Datagram} {mtu off fuel : ℕ} {bytes buffer : List UInt8} {last : Bool}

lemma shift_lt (hoff : off < 2 ^ 16) : off >>> 3 < 2 ^ 13 := by
  rw [Nat.shiftRight_eq_div_pow]
  omega

lemma start_fragment (h8 : off % 8 = 0) (hoff : off < 2 ^ 16) :
    (d.fragment off bytes last).header.start = off := by
  have hlt := shift_lt hoff
  have hor : ((if last then 0 else moreFragments) ||| off >>> 3) % 2 ^ 13 = off >>> 3 := by
    cases last with
    | true => simpa using hlt
    | false =>
      show (2 ^ 13 ||| off >>> 3) % 2 ^ 13 = off >>> 3
      have hadd := Nat.two_pow_add_eq_or_of_lt hlt 1
      rw [mul_one] at hadd
      rw [← hadd, Nat.add_mod_left, Nat.mod_eq_of_lt hlt]
  show (((if last then 0 else moreFragments) ||| off >>> 3) &&& (2 ^ 13 - 1)) * 8 % 2 ^ 16 = off
  rw [Nat.and_two_pow_sub_one_eq_mod, hor, Nat.shiftRight_eq_div_pow]
  omega

lemma isLast_fragment (hoff : off < 2 ^ 16) : (d.fragment off bytes last).header.isLast = last := by
  show decide (((if last then 0 else moreFragments) ||| off >>> 3) &&& 2 ^ 13 = 0) = last
  cases last with
  | true =>
    rw [if_pos rfl, Nat.zero_or, Nat.and_two_pow, Nat.testBit_lt_two_pow (shift_lt hoff)]
    rfl
  | false =>
    rw [Nat.and_or_distrib_right]
    simp [moreFragments]

lemma isFragment_fragment (hle : d.headerLength + d.payload.length ≤ 65535) (h8 : off % 8 = 0)
    (hbytes : bytes = (d.payload.drop off).take bytes.length) (hpos : 0 < bytes.length)
    (hend : off + bytes.length ≤ d.payload.length)
    (hlast : last = decide (off + bytes.length = d.payload.length)) (address start stop : ℕ) :
    IsFragment d.payload (d.fragment off bytes last).header
        ⟨address, (d.fragment off bytes last).data, start, stop⟩ ∧
      (d.fragment off bytes last).fragment.start = off ∧
      (d.fragment off bytes last).fragment.stop = off + bytes.length := by
  have hstart : (d.fragment off bytes last).header.start = off := start_fragment h8 (by omega)
  have htotal : (d.fragment off bytes last).header.totalLength = bytes.length + d.headerLength :=
    Nat.mod_eq_of_lt (by omega)
  have hheader : (d.fragment off bytes last).header.headerLength = d.headerLength := rfl
  have hstop : (d.fragment off bytes last).header.start +
      (d.fragment off bytes last).header.totalLength -
        (d.fragment off bytes last).header.headerLength = off + bytes.length := by
    rw [hstart, htotal, hheader]
    omega
  refine ⟨⟨by rw [htotal, hheader]; omega, by rw [hstop]; exact hend, ?_, ?_, ?_⟩, hstart, hstop⟩
  · rw [hstop, isLast_fragment (by omega), hlast]
  · show d.headerLength ≤ (d.header _ _ ++ bytes).length
    rw [List.length_append, d.length_header]
    omega
  · rw [hstop, hstart]
    show (d.header _ _ ++ bytes).drop d.headerLength = _
    rw [List.drop_left' (d.length_header _ _), slice, List.drop_take, Nat.add_sub_cancel_left]
    exact hbytes

lemma sendLoop_covering (hle : d.headerLength + d.payload.length ≤ 65535) (h8 : off % 8 = 0)
    (hmtu : 0 < mtu) (hmtu8 : mtu % 8 = 0) (hbuffer : buffer = d.payload.drop off)
    (hoff : off < d.payload.length) (hfuel : buffer.length ≤ fuel) :
    ∃ sent, d.sendLoop mtu (fuel + 1) off buffer = some sent ∧ Covering d mtu off sent := by
  induction fuel generalizing off buffer with
  | zero =>
    rw [hbuffer, List.length_drop] at hfuel
    omega
  | succ fuel ih =>
    have hlen : buffer.length = d.payload.length - off := by rw [hbuffer, List.length_drop]
    rw [Datagram.sendLoop, if_neg (by omega)]
    dsimp only
    split_ifs with hlast
    · have hall := @isFragment_fragment d off buffer true hle h8
        (by rw [List.take_of_length_le (by rw [← hbuffer])]; exact hbuffer) (by omega) (by omega)
        (by rw [eq_comm, decide_eq_true_eq]; omega)
      refine ⟨_, rfl, ?_⟩
      obtain ⟨_, hstart, hstop⟩ := hall 0 0 0
      constructor
      · intro f hf
        rw [List.mem_singleton.1 hf]
        exact fun address start stop => (hall address start stop).1
      · intro f hf
        rw [List.mem_singleton.1 hf]
        refine ⟨rfl, rfl, ?_⟩
        show (d.header _ _ ++ buffer).length ≤ _
        rw [List.length_append, d.length_header]
        omega
      · intro f hf
        rw [List.mem_singleton.1 hf, hstart]
      · exact List.pairwise_singleton _ _
      · intro x hx hlt
        exact ⟨_, List.mem_singleton_self _, by omega, by omega⟩
    · have hlt : mtu < buffer.length := by omega
      have htake : (buffer.take (min buffer.length mtu)).length = mtu := by
        rw [List.length_take]
        omega
      rw [Nat.min_eq_right hlt.le] at htake ⊢
      have hfirst := @isFragment_fragment d off (buffer.take mtu) false hle h8
        (by rw [htake, hbuffer]) (by omega) (by omega)
        (by rw [eq_comm, decide_eq_false_iff_not]; omega)
      rw [htake] at hfirst
      obtain ⟨_, hstart, hstop⟩ := hfirst 0 0 0
      obtain ⟨sent, hsent, hrest⟩ : ∃ sent,
          d.sendLoop mtu (fuel + 1) (off + mtu) (buffer.drop mtu) = some sent ∧
            Covering d mtu (off + mtu) sent :=
        ih (by omega) (by rw [hbuffer, List.drop_drop]) (by omega)
          (by rw [List.length_drop]; omega)
      refine ⟨d.fragment off (buffer.take mtu) false :: sent, by rw [hsent]; rfl, ?_⟩
      constructor
      · intro f hf
        rcases List.mem_cons.1 hf with rfl | hf
        · exact fun address start stop => (hfirst address start stop).1
        · exact hrest.fragment f hf
      · intro f hf
        rcases List.mem_cons.1 hf with rfl | hf
        · refine ⟨rfl, rfl, ?_⟩
          show (d.header _ _ ++ buffer.take mtu).length ≤ _
          rw [List.length_append, d.length_header, htake]
        · exact hrest.same f hf
      · intro f hf
        rcases List.mem_cons.1 hf with rfl | hf
        · exact hstart.ge
        · exact (Nat.le_add_right _ _).trans (hrest.behind f hf)
      · refine List.pairwise_cons.2 ⟨fun g hg => .inl ?_, hrest.apart⟩
        rw [hstop]
        exact hrest.behind g hg
      · intro x hx hlt
        by_cases hin : x < off + mtu
        · exact ⟨_, List.mem_cons_self, by omega, by omega⟩
        · obtain ⟨f, hf, hfx⟩ := hrest.covers x (by omega) hlt
          exact ⟨f, List.mem_cons_of_mem _ hf, hfx⟩

end

/-! ## The fragments that arrive -/

section
variable {d : Datagram} {hash hash' : FragmentHash} {header : Header} {buffer b : NetBuffer}
  {packet : FragmentPacket} {before after : List NetBuffer} {start stop : ℕ}

lemma address_removeHeader (bytes : ℕ) : (buffer.removeHeader bytes).address = buffer.address := by
  unfold NetBuffer.removeHeader
  split_ifs <;> rfl

lemma address_truncateStart (previous : Option NetBuffer) :
    (FragmentPacket.truncateStart previous buffer start).1.address = buffer.address := by
  unfold FragmentPacket.truncateStart
  split
  · split_ifs
    · exact address_removeHeader _
    · rfl
  · rfl

lemma address_truncateStop (next : Option NetBuffer) :
    (FragmentPacket.truncateStop next buffer stop).1.address = buffer.address := by
  unfold FragmentPacket.truncateStop NetBuffer.removeTrailer NetBuffer.trimData
  split
  · split_ifs <;> rfl
  · rfl

lemma address_insertFragment
    (hb : b ∈ FragmentPacket.insertFragment before after buffer start stop) :
    b.address = buffer.address ∨ b ∈ before.reverse ++ after := by
  unfold FragmentPacket.insertFragment at hb
  split at hb <;> rcases List.mem_append.1 hb with hb | hb
  · exact .inr (List.mem_append_left _ (List.mem_reverse.2
      (List.mem_of_mem_tail (List.mem_reverse.1 hb))))
  · rcases List.mem_cons.1 hb with rfl | hb
    · exact .inl rfl
    · exact .inr (List.mem_append_right _ hb)
  · exact .inr (List.mem_append_left _ hb)
  · rcases List.mem_cons.1 hb with rfl | hb
    · exact .inl rfl
    · exact .inr (List.mem_append_right _ (List.mem_of_mem_tail hb))
  · exact .inr (List.mem_append_left _ hb)
  · rcases List.mem_cons.1 hb with rfl | hb
    · exact .inl rfl
    · exact .inr (List.mem_append_right _ hb)

lemma address_addFragment {last : Bool}
    (hb : b ∈ (packet.addFragment start stop buffer last).1.fragments) :
    b.address = buffer.address ∨ ∃ c ∈ packet.fragments, c.address = b.address := by
  have hpos := (findPosition_spec start packet.fragments.reverse []).1
  unfold FragmentPacket.addFragment at hb
  generalize FragmentPacket.findPosition start packet.fragments.reverse [] = position at hb hpos
  rw [List.reverse_reverse, List.append_nil] at hpos
  split at hb
  · exact .inr ⟨b, hb, rfl⟩
  · obtain ⟨before, after⟩ := position
    dsimp only at hb hpos
    split at hb
    · exact .inr ⟨b, hb, rfl⟩
    · rcases address_insertFragment hb with hb | hb
      · exact .inl (hb.trans ((address_truncateStop _).trans (address_truncateStart _)))
      · exact .inr ⟨b, hpos ▸ hb, rfl⟩

lemma address_reassembleFragments
    (h : reassembleFragments hash header buffer = some (hash', .incomplete))
    (hb : b ∈ (packetFor hash' header.key).fragments) :
    b.address = buffer.address ∨ ∃ c ∈ (packetFor hash header.key).fragments,
      c.address = b.address := by
  unfold reassembleFragments at h
  dsimp only at h
  generalize hstripped :
    (if header.start ≠ 0 then buffer.removeHeader header.headerLength else buffer) = stripped at h
  have haddress : stripped.address = buffer.address := by
    rw [← hstripped]
    split
    · exact address_removeHeader _
    · rfl
  split_ifs at h
  · cases h
  · obtain ⟨result, _, hresult⟩ := Option.map_eq_some_iff.1 h
    have hincomplete := (Prod.mk.inj hresult).2
    split at hincomplete <;> cases hincomplete
  · have hhash := (Prod.mk.inj (Option.some.inj h)).1
    rw [← hhash, packetFor_of_some (Function.update_self _ _ _)] at hb
    exact (address_addFragment hb).imp_left fun hb => hb.trans haddress

/-- What is fed to `reassemble_fragments()`: fragments of the datagram, no two of which have a byte
in common, each in a buffer of its own. -/
structure Feeds (d : Datagram) (arrivals : List Arrival) : Prop where
  fragment : ∀ a ∈ arrivals, IsFragment d.payload a.sent.header a.buffer
  key : ∀ a ∈ arrivals, a.sent.header.key = d.key
  headerLength : ∀ a ∈ arrivals, a.sent.header.headerLength = d.headerLength
  apart : arrivals.Pairwise fun a a' => Apart a.fragment a'.fragment
  nodup : (arrivals.map Arrival.address).Nodup

/-- The packet has what arrived, and waits for more. -/
structure Waits (d : Datagram) (arrived : List Arrival) (hash : FragmentHash) : Prop where
  holds : Holds d.payload (arrived.map Arrival.fragment) (packetFor hash d.key)
  incomplete : (packetFor hash d.key).isComplete = false
  address : ∀ b ∈ (packetFor hash d.key).fragments, ∃ a ∈ arrived, a.address = b.address

variable {arrived arrivals : List Arrival} {a : Arrival}

lemma Apart.symm {f g : Fragment} (h : Apart f g) : Apart g f := Or.symm h

section

variable (h : Feeds d (arrived ++ a :: arrivals))
include h

lemma Feeds.not_covered {x : ℕ} (hx : a.fragment.start ≤ x) (hlt : x < a.fragment.stop) :
    ¬Lib.InSpans ((arrived.map Arrival.fragment).map Fragment.span) x := by
  rintro ⟨s, hs, hle, hlt'⟩
  obtain ⟨f, hf, rfl⟩ := List.mem_map.1 hs
  obtain ⟨a', ha', rfl⟩ := List.mem_map.1 hf
  have hle : a'.fragment.start ≤ x := hle
  have hlt' : x < a'.fragment.stop := hlt'
  rcases (List.pairwise_append.1 h.apart).2.2 a' ha' a List.mem_cons_self with hapart | hapart
  · omega
  · omega

lemma Feeds.clean (hw : Waits d arrived hash)
    (hstop : a.sent.header.stop = a.fragment.stop) (hlt : a.fragment.start < a.fragment.stop) :
    Clean (packetFor hash d.key).fragments a.sent.header.start a.sent.header.stop := by
  have hstart : a.sent.header.start = a.fragment.start := rfl
  -- the first byte of a buffer has arrived
  have hfirst : ∀ b ∈ (packetFor hash d.key).fragments,
      ¬(a.fragment.start ≤ b.start ∧ b.start < a.fragment.stop) := by
    rintro b hb ⟨hle, hin⟩
    refine h.not_covered hle hin ((hw.holds.covers b.start).1 ?_)
    exact ⟨b.span, List.mem_map_of_mem hb, le_rfl, (hw.holds.slices.bounds b hb).1⟩
  right
  constructor
  · intro b hb hbehind
    have hnot := hfirst b hb
    omega
  · intro hzero b hb hbzero
    exact hfirst b hb ⟨by omega, by omega⟩

lemma Feeds.fresh (hw : Waits d arrived hash)
    (hb : b ∈ (packetFor hash d.key).fragments) : b.address ≠ a.address := by
  intro heq
  obtain ⟨a', ha', haddress⟩ := hw.address b hb
  have hnodup := h.nodup
  rw [List.map_append, List.map_cons] at hnodup
  exact (List.nodup_append.1 hnodup).2.2 _ (List.mem_map_of_mem ha') _ List.mem_cons_self
    (haddress.trans heq)

lemma Feeds.not_covers : ¬Covers d.payload (arrived.map Arrival.fragment) := by
  rintro ⟨hall, _⟩
  have hf := h.fragment a (List.mem_append_right _ List.mem_cons_self)
  have hlt := hf.lt
  have hle := hf.le
  have hstart : a.fragment.start = a.sent.header.start := rfl
  have hstop : a.fragment.stop =
    a.sent.header.start + a.sent.header.totalLength - a.sent.header.headerLength := rfl
  exact h.not_covered le_rfl (by omega) (hall a.fragment.start (by omega))

end

lemma Feeds.feed (h : Feeds d (arrived ++ arrivals)) (hw : Waits d arrived hash)
    (hne : arrivals ≠ []) (hcovers : Covers d.payload ((arrived ++ arrivals).map Arrival.fragment)) :
    ∃ hash' b, IPv4.feed hash arrivals = some (hash',
        List.replicate (arrivals.length - 1) .incomplete ++ [.complete b]) ∧
      ∃ header, header.length = d.headerLength ∧ b.data = header ++ d.payload := by
  induction arrivals generalizing arrived hash with
  | nil => exact absurd rfl hne
  | cons a arrivals ih =>
    have hmem : a ∈ arrived ++ a :: arrivals := List.mem_append_right _ List.mem_cons_self
    have hf := h.fragment a hmem
    have hkey := h.key a hmem
    have hlt := hf.lt
    have hstop := hf.stop_eq hw.holds.payload_le
    have hpacket : (hash a.sent.header.key).getD .init = packetFor hash d.key := by rw [hkey]; rfl
    have hclean : Clean (packetFor hash d.key).fragments a.sent.header.start a.sent.header.stop := by
      refine h.clean hw hstop ?_
      show a.sent.header.start < _ + a.sent.header.totalLength - a.sent.header.headerLength
      omega
    have hholds := hw.holds
    have hincomplete := hw.incomplete
    have hfresh : ∀ b ∈ (packetFor hash d.key).fragments, b.address ≠ a.buffer.address :=
      fun b hb => h.fresh hw hb
    rw [← hpacket] at hclean hholds hincomplete hfresh
    obtain ⟨hash', result, hresult, hdelivers, _, hown⟩ :=
      hholds.receive hf hclean hfresh hincomplete
    have happend : arrived ++ a :: arrivals = (arrived ++ [a]) ++ arrivals := by simp
    have hreceived : arrived.map Arrival.fragment ++ [fragmentOf a.sent.header a.buffer] =
        (arrived ++ [a]).map Arrival.fragment := by
      rw [List.map_append]
      rfl
    rw [hreceived] at hdelivers hown
    rw [happend] at h hcovers
    rw [IPv4.feed, hresult, Option.bind_some]
    dsimp only
    cases arrivals with
    | nil =>
      rw [List.append_nil] at h hcovers
      obtain ⟨b, f, hcomplete, hfmem, _, hdata⟩ := hdelivers.2 hcovers
      refine ⟨hash', b, by rw [hcomplete]; rfl, f.header, ?_, hdata⟩
      obtain ⟨a', ha', rfl⟩ := List.mem_map.1 hfmem
      show (a'.sent.data.take a'.sent.header.headerLength).length = _
      have hlength : a'.sent.header.headerLength ≤ a'.sent.data.length :=
        (h.fragment a' ha').length
      rw [List.length_take, Nat.min_eq_left hlength, h.headerLength a' ha']
    | cons a' arrivals =>
      have hincomplete := hdelivers.1 h.not_covers
      rcases hown with ⟨b, hcomplete, _⟩ | ⟨_, packet, hsome, hnot, hholds⟩
      · rw [hincomplete] at hcomplete
        cases hcomplete
      · rw [hkey] at hsome
        rw [← packetFor_of_some hsome] at hnot hholds
        have hwaits : Waits d (arrived ++ [a]) hash' := by
          refine ⟨hholds, hnot, ?_⟩
          intro b hb
          rw [hincomplete] at hresult
          rw [← hkey] at hb
          rcases address_reassembleFragments hresult hb with haddress | ⟨c, hc, haddress⟩
          · exact ⟨a, List.mem_append_right _ List.mem_cons_self, haddress.symm⟩
          · rw [hkey] at hc
            obtain ⟨a'', ha'', heq⟩ := hw.address c hc
            exact ⟨a'', List.mem_append_left _ ha'', heq.trans haddress⟩
        obtain ⟨hash'', b, hfeed, hdata⟩ := ih h hwaits (List.cons_ne_nil _ _) hcovers
        refine ⟨hash'', b, ?_, hdata⟩
        rw [hfeed, hincomplete]
        rfl

end

section
variable {d : Datagram} {mtu : ℕ} {sent : List Sent} {arrivals : List Arrival} {hash : FragmentHash}

lemma Covering.feeds (h : Covering d mtu 0 sent) (hperm : (arrivals.map Arrival.sent).Perm sent)
    (hnodup : (arrivals.map Arrival.address).Nodup) : Feeds d arrivals where
  fragment a ha := h.fragment a.sent (hperm.mem_iff.1 (List.mem_map_of_mem ha)) _ _ _
  key a ha := (h.same a.sent (hperm.mem_iff.1 (List.mem_map_of_mem ha))).1
  headerLength a ha := (h.same a.sent (hperm.mem_iff.1 (List.mem_map_of_mem ha))).2.1
  apart := by
    have hsent : (arrivals.map Arrival.sent).Pairwise fun f g => Apart f.fragment g.fragment :=
      (hperm.pairwise_iff Apart.symm).2 h.apart
    rw [List.pairwise_map] at hsent
    exact hsent
  nodup := hnodup

lemma Covering.covers_arrivals (h : Covering d mtu 0 sent)
    (hperm : (arrivals.map Arrival.sent).Perm sent) (hne : d.payload ≠ []) :
    Covers d.payload (arrivals.map Arrival.fragment) := by
  have hmem : ∀ f ∈ sent, f.fragment ∈ arrivals.map Arrival.fragment := by
    intro f hf
    obtain ⟨a, ha, heq⟩ := List.mem_map.1 (hperm.mem_iff.2 hf)
    exact List.mem_map.2 ⟨a, ha, congrArg Sent.fragment heq⟩
  constructor
  · intro x hx
    obtain ⟨f, hf, hle, hlt⟩ := h.covers x (Nat.zero_le _) hx
    exact ⟨f.fragment.span, List.mem_map_of_mem (hmem f hf), hle, hlt⟩
  · have hpos := List.length_pos_iff.2 hne
    obtain ⟨f, hf, _, hlt⟩ := h.covers (d.payload.length - 1) (Nat.zero_le _) (by omega)
    have hle : f.fragment.stop ≤ d.payload.length := (h.fragment f hf 0 0 0).le
    exact ⟨f.fragment, hmem f hf, by omega⟩

lemma waits_of_none (hle : d.payload.length ≤ 65535) (hnone : hash d.key = none) :
    Waits d [] hash := by
  have hpacket := packetFor_of_none hnone
  refine ⟨hpacket ▸ holds_init hle, hpacket ▸ rfl, ?_⟩
  rw [hpacket]
  intro b hb
  cases hb

end

/-- A datagram comes back from its fragments, in whatever order they arrive. A datagram is only sent
in fragments if it is longer than the MTU, so that there is a payload. -/
theorem sent_reassembled (d : Datagram) (mtu : ℕ)
    (hle : d.headerLength + d.payload.length ≤ 65535) (hmtu : d.headerLength + 8 ≤ mtu)
    (hne : d.payload ≠ []) :
    ∃ sent, d.sendFragments mtu (d.payload.length + 1) = some sent ∧
      (∀ f ∈ sent, f.data.length ≤ mtu) ∧
      ∀ (hash : FragmentHash) (arrivals : List Arrival), hash d.key = none →
        (arrivals.map Arrival.sent).Perm sent → (arrivals.map Arrival.address).Nodup →
        ∃ hash' b, feed hash arrivals = some (hash',
            List.replicate (arrivals.length - 1) .incomplete ++ [.complete b]) ∧
          ∃ header, header.length = d.headerLength ∧ b.data = header ++ d.payload := by
  obtain ⟨sent, hsent, h⟩ : ∃ sent, d.sendFragments mtu (d.payload.length + 1) = some sent ∧
      Covering d ((mtu - d.headerLength) / 8 * 8) 0 sent :=
    sendLoop_covering hle rfl (by omega) (by omega) rfl (List.length_pos_iff.2 hne) le_rfl
  refine ⟨sent, hsent, ?_, ?_⟩
  · intro f hf
    have hlen := (h.same f hf).2.2
    omega
  · intro hash arrivals hnone hperm hnodup
    have hcovers := h.covers_arrivals hperm hne
    refine (h.feeds hperm hnodup).feed (waits_of_none (by omega) hnone) ?_ hcovers
    rintro rfl
    obtain ⟨f, hf, _⟩ := hcovers.2
    cases hf

def someDatagram : Datagram where
  key := ⟨1, 2, 3, 17⟩
  headerLength := 20
  header totalLength fragmentOffset := [0x45, 0, UInt8.ofNat (totalLength / 256),
    UInt8.ofNat totalLength, 0, 3, UInt8.ofNat (fragmentOffset / 256), UInt8.ofNat fragmentOffset] ++
      List.replicate 12 0
  length_header _ _ := rfl
  payload := (List.range 20).map UInt8.ofNat

theorem sent_reassembled_someDatagram :
    ∃ sent, someDatagram.sendFragments 31 21 = some sent ∧
      (∀ f ∈ sent, f.data.length ≤ 31) ∧
      ∀ (hash : FragmentHash) (arrivals : List Arrival), hash someDatagram.key = none →
        (arrivals.map Arrival.sent).Perm sent → (arrivals.map Arrival.address).Nodup →
        ∃ hash' b, feed hash arrivals = some (hash',
            List.replicate (arrivals.length - 1) .incomplete ++ [.complete b]) ∧
          ∃ header, header.length = 20 ∧ b.data = header ++ someDatagram.payload :=
  sent_reassembled someDatagram 31 (by decide) (by decide) (by decide)

end Haiku.IPv4
