import Haiku.IPv4.Basic
import Haiku.Lock.ReadWriteInvariant

/-!
# What a packet holds

What a packet holds of a datagram: disjoint slices of the payload, of which the first one has the IP
header in front. Together they are what was received, as long as no fragment overlaps data behind
its start (`Clean`), since `remove_trailer()` is called with a negative size there, and the IP header
of a first fragment is not taken into account when its first bytes are removed.
-/

namespace Haiku.IPv4

open Lib Lock

/-! ## Slices -/

def slice (payload : List UInt8) (start stop : ℕ) : List UInt8 := (payload.take stop).drop start

variable {payload : List UInt8} {a b c lo hi start stop x : ℕ}

lemma length_slice (hle : b ≤ payload.length) : (slice payload a b).length = b - a := by
  unfold slice
  rw [List.length_drop, List.length_take, Nat.min_eq_left hle]

lemma slice_append (hab : a ≤ b) (hbc : b ≤ c) (hle : c ≤ payload.length) :
    slice payload a b ++ slice payload b c = slice payload a c := by
  have hcb : (payload.take c).take b = payload.take b := by
    rw [List.take_take, Nat.min_eq_left hbc]
  have hlength : (payload.take b).length = b := by
    rw [List.length_take]
    omega
  have hsplit : payload.take b ++ (payload.take c).drop b = payload.take c := by
    rw [← hcb, List.take_append_drop]
  unfold slice
  rw [← List.drop_append_of_le_length (by omega), hsplit]

lemma drop_slice (hab : a ≤ b) : (slice payload a c).drop (b - a) = slice payload b c := by
  unfold slice
  rw [List.drop_drop]
  congr 1
  omega

lemma slice_all : slice payload 0 payload.length = payload := by
  unfold slice
  rw [List.take_length, List.drop_zero]

/-! ## Spans that touch -/

variable {l l₁ l₂ : List Span} {p q s : Span}

lemma spans_insert (h : Spans lo (l₁ ++ l₂) hi) (hlo : lo ≤ s.1) (hs : s.1 < s.2)
    (hbefore : ∀ p ∈ l₁, p.2 ≤ s.1) (hafter : ∀ q ∈ l₂, s.2 ≤ q.1) :
    Spans lo (l₁ ++ s :: l₂) (max hi s.2) := by
  induction l₁ generalizing lo with
  | nil =>
    refine ⟨hlo, hs, ?_⟩
    cases l₂ with
    | nil =>
      have hhi : hi = lo := h
      show max hi s.2 = s.2
      omega
    | cons q l₂ =>
      have hq := hafter q List.mem_cons_self
      obtain ⟨hge, hne, hrest⟩ := h
      have hle := hrest.le
      have hmax : max hi s.2 = hi := by omega
      rw [hmax]
      exact ⟨hq, hne, hrest⟩
  | cons p l₁ ih =>
    obtain ⟨hge, hne, hrest⟩ := h
    have hp := hbefore p List.mem_cons_self
    exact ⟨hge, hne, ih hrest hp fun q hq => hbefore q (List.mem_cons_of_mem _ hq)⟩

lemma spans_join (h : Spans lo (l₁ ++ p :: q :: l₂) hi) (hpq : p.2 = q.1) :
    Spans lo (l₁ ++ (p.1, q.2) :: l₂) hi := by
  obtain ⟨m, hbefore, hge, hp, hge', hq, hrest⟩ := spans_append.1 h
  refine spans_append.2 ⟨m, hbefore, hge, ?_, hrest⟩
  show p.1 < q.2
  omega

lemma total_insert : total (l₁ ++ s :: l₂) = total (l₁ ++ l₂) + (s.2 - s.1) := by
  rw [total_append, total_append, total]
  omega

lemma total_join (hp : p.1 < p.2) (hq : q.1 < q.2) (hpq : p.2 = q.1) :
    total (l₁ ++ (p.1, q.2) :: l₂) = total (l₁ ++ p :: q :: l₂) := by
  rw [total_append, total_append, total, total, total]
  omega

lemma inSpans_insert : InSpans (l₁ ++ s :: l₂) x ↔ InSpans (l₁ ++ l₂) x ∨ s.1 ≤ x ∧ x < s.2 := by
  rw [inSpans_append, inSpans_append, inSpans_cons]
  tauto

lemma inSpans_join (hp : p.1 < p.2) (hq : q.1 < q.2) (hpq : p.2 = q.1) :
    InSpans (l₁ ++ (p.1, q.2) :: l₂) x ↔ InSpans (l₁ ++ p :: q :: l₂) x := by
  rw [inSpans_append, inSpans_append, inSpans_cons, inSpans_cons, inSpans_cons]
  have hmiddle : p.1 ≤ x ∧ x < q.2 ↔ (p.1 ≤ x ∧ x < p.2) ∨ (q.1 ≤ x ∧ x < q.2) := by omega
  tauto

/-! ## What a packet holds -/

/-- What was received: where it is in the payload, and the IP header it had. -/
structure Fragment where
  start : ℕ
  stop : ℕ
  header : List UInt8

def Fragment.span (f : Fragment) : Span := (f.start, f.stop)

def NetBuffer.span (buffer : NetBuffer) : Span := (buffer.start, buffer.stop)

variable {received : List Fragment} {buffers before after : List NetBuffer}
  {buffer previous next : NetBuffer}

/-- The headers that the bytes from `start` on may come with. -/
def IsHeader (received : List Fragment) (start : ℕ) (header : List UInt8) : Prop :=
  if start = 0 then ∃ f ∈ received, f.start = 0 ∧ f.header = header else header = []

structure Slices (payload : List UInt8) (received : List Fragment) (buffers : List NetBuffer) :
    Prop where
  spans : ∃ hi ≤ payload.length, Spans 0 (buffers.map NetBuffer.span) hi
  data : ∀ b ∈ buffers, ∃ header, IsHeader received b.start header ∧
    b.data = header ++ slice payload b.start b.stop

lemma Slices.bounds (h : Slices payload received buffers) (buffer : NetBuffer)
    (hb : buffer ∈ buffers) :
    buffer.start < buffer.stop ∧ buffer.stop ≤ payload.length := by
  obtain ⟨hi, hle, hspans⟩ := h.spans
  have hmem := hspans.start_ge (List.mem_map_of_mem hb)
  exact ⟨hmem.2.1, hmem.2.2.trans hle⟩

lemma Slices.insert (h : Slices payload received (before ++ after))
    (hlt : buffer.start < buffer.stop) (hle : buffer.stop ≤ payload.length)
    (hbefore : ∀ p ∈ before, p.stop ≤ buffer.start) (hafter : ∀ q ∈ after, buffer.stop ≤ q.start)
    {header : List UInt8} (hheader : IsHeader received buffer.start header)
    (hdata : buffer.data = header ++ slice payload buffer.start buffer.stop) :
    Slices payload received (before ++ buffer :: after) := by
  obtain ⟨hi, hhi, hspans⟩ := h.spans
  rw [List.map_append] at hspans
  constructor
  · refine ⟨max hi buffer.stop, by omega, ?_⟩
    rw [List.map_append, List.map_cons]
    apply spans_insert hspans (Nat.zero_le _) hlt
    · intro p hp
      obtain ⟨q, hq, hqp⟩ := List.mem_map.1 hp
      rw [← hqp]
      exact hbefore q hq
    · intro p hp
      obtain ⟨q, hq, hqp⟩ := List.mem_map.1 hp
      rw [← hqp]
      exact hafter q hq
  · intro b hb
    rcases List.mem_append.1 hb with hb | hb
    · exact h.data b (List.mem_append_left _ hb)
    · rcases List.mem_cons.1 hb with hb | hb
      · rw [hb]
        exact ⟨header, hheader, hdata⟩
      · exact h.data b (List.mem_append_right _ hb)

lemma Slices.join {p q r : NetBuffer} (h : Slices payload received (before ++ p :: q :: after))
    (hpq : p.stop = q.start) (hstart : r.start = p.start) (hstop : r.stop = q.stop)
    (hdata : r.data = p.data ++ q.data) : Slices payload received (before ++ r :: after) := by
  obtain ⟨hi, hhi, hspans⟩ := h.spans
  have hp := h.bounds p (by simp)
  have hq := h.bounds q (by simp)
  have hr : r.span = (p.span.1, q.span.2) := by
    unfold NetBuffer.span
    rw [hstart, hstop]
  constructor
  · refine ⟨hi, hhi, ?_⟩
    rw [List.map_append, List.map_cons, List.map_cons] at hspans
    rw [List.map_append, List.map_cons, hr]
    exact spans_join hspans hpq
  · intro b hb
    rcases List.mem_append.1 hb with hb | hb
    · exact h.data b (List.mem_append_left _ hb)
    · rcases List.mem_cons.1 hb with hb | hb
      · subst hb
        obtain ⟨header, hheader, hpdata⟩ := h.data p (by simp)
        obtain ⟨header', hheader', hqdata⟩ := h.data q (by simp)
        -- only the first buffer has a header
        have hnone : header' = [] := by
          unfold IsHeader at hheader'
          rwa [if_neg (by omega)] at hheader'
        refine ⟨header, by rwa [hstart], ?_⟩
        rw [hdata, hpdata, hqdata, hnone, List.nil_append, List.append_assoc, ← hpq,
          slice_append (by omega) (by omega) hq.2, hstart, hstop]
      · exact h.data b (by simp [hb])

/-! ## Adding a fragment -/

lemma findPosition_spec (start : ℕ) (before after : List NetBuffer) :
    (FragmentPacket.findPosition start before after).1.reverse ++
        (FragmentPacket.findPosition start before after).2 = before.reverse ++ after ∧
      (∀ p ∈ (FragmentPacket.findPosition start before after).1.head?, p.start ≤ start) ∧
      ((∀ q ∈ after, start < q.start) →
        ∀ q ∈ (FragmentPacket.findPosition start before after).2, start < q.start) := by
  induction before generalizing after with
  | nil => exact ⟨rfl, fun p hp => (by cases hp), fun h => h⟩
  | cons p before ih =>
    unfold FragmentPacket.findPosition
    split
    next hle =>
      refine ⟨rfl, ?_, fun h => h⟩
      intro q hq
      cases hq
      exact hle
    next hgt =>
      obtain ⟨hsplit, hhead, hafter⟩ := ih (p :: after)
      refine ⟨by rw [hsplit]; simp, hhead, fun h => hafter ?_⟩
      intro q hq
      rcases List.mem_cons.1 hq with hq | hq
      · rw [hq]
        omega
      · exact h q hq

/-- What is known when a fragment is added between `before` and `after`. -/
structure Fits (payload : List UInt8) (received : List Fragment) (before after : List NetBuffer)
    (buffer : NetBuffer) (start stop : ℕ) : Prop where
  slices : Slices payload received (before.reverse ++ after)
  lt : start < stop
  le : stop ≤ payload.length
  behind : ∀ p ∈ before, p.stop ≤ start
  ahead : ∀ q ∈ after, stop ≤ q.start
  data : ∃ header, IsHeader received start header ∧
    buffer.data = header ++ slice payload start stop
  nodup : ((before.reverse ++ after).map NetBuffer.address).Nodup
  fresh : ∀ b ∈ before.reverse ++ after, b.address ≠ buffer.address

/-- What is known when it was added. -/
structure Inserted (payload : List UInt8) (received : List Fragment) (old new : List NetBuffer)
    (address start stop : ℕ) : Prop where
  slices : Slices payload received new
  total_eq : total (new.map NetBuffer.span) = total (old.map NetBuffer.span) + (stop - start)
  covers : ∀ x, InSpans (new.map NetBuffer.span) x ↔
    InSpans (old.map NetBuffer.span) x ∨ start ≤ x ∧ x < stop
  nodup : (new.map NetBuffer.address).Nodup
  mem : ∃ b ∈ new, b.address = address

lemma Fits.inserted (h : Fits payload received before after buffer start stop) :
    Inserted payload received (before.reverse ++ after)
      (before.reverse ++ buffer.setFragment start stop :: after) buffer.address start stop := by
  obtain ⟨header, hheader, hdata⟩ := h.data
  constructor
  · exact h.slices.insert h.lt h.le (fun p hp => h.behind p (List.mem_reverse.1 hp)) h.ahead
      hheader hdata
  · rw [List.map_append, List.map_cons, total_insert, List.map_append]
    rfl
  · intro x
    rw [List.map_append, List.map_cons, inSpans_insert, List.map_append]
    rfl
  · have hnodup := h.nodup
    rw [List.map_append] at hnodup
    rw [List.map_append, List.map_cons, List.nodup_middle, List.nodup_cons]
    refine ⟨?_, hnodup⟩
    intro hmem
    rw [← List.map_append] at hmem
    obtain ⟨b, hb, haddress⟩ := List.mem_map.1 hmem
    exact h.fresh b hb haddress
  · exact ⟨buffer.setFragment start stop, by simp, rfl⟩

lemma Inserted.join {old : List NetBuffer} {p q r : NetBuffer} {address : ℕ}
    (h : Inserted payload received old (before ++ p :: q :: after) address start stop)
    (hpq : p.stop = q.start) (hstart : r.start = p.start) (hstop : r.stop = q.stop)
    (hdata : r.data = p.data ++ q.data) (haddress : r.address = address)
    (hone : p.address = address ∨ q.address = address) :
    Inserted payload received old (before ++ r :: after) address start stop := by
  have hp := h.slices.bounds p (by simp)
  have hq := h.slices.bounds q (by simp)
  have hr : r.span = (p.span.1, q.span.2) := by
    unfold NetBuffer.span
    rw [hstart, hstop]
  have htotal := h.total_eq
  have hcovers := h.covers
  rw [List.map_append, List.map_cons, List.map_cons] at htotal hcovers
  constructor
  · exact h.slices.join hpq hstart hstop hdata
  · rw [List.map_append, List.map_cons, hr, ← htotal]
    exact total_join hp.1 hq.1 hpq
  · intro x
    rw [List.map_append, List.map_cons, hr, ← hcovers x]
    exact inSpans_join hp.1 hq.1 hpq
  · have hnodup := h.nodup
    rw [List.map_append, List.map_cons, List.map_cons] at hnodup
    rw [List.map_append, List.map_cons, haddress]
    refine List.Nodup.sublist ?_ hnodup
    apply List.Sublist.append (List.Sublist.refl _)
    rcases hone with hone | hone
    · rw [hone]
      exact (List.sublist_cons_self _ _).cons_cons _
    · rw [hone]
      exact List.sublist_cons_self _ _
  · exact ⟨r, by simp, haddress⟩

lemma Fits.insertFragment (h : Fits payload received before after buffer start stop) :
    Inserted payload received (before.reverse ++ after)
      (FragmentPacket.insertFragment before after buffer start stop) buffer.address start stop := by
  have hinserted := h.inserted
  unfold FragmentPacket.insertFragment
  split
  next _ _ previous hprevious =>
    obtain ⟨hhead, htouch⟩ := Option.filter_eq_some_iff.1 hprevious
    have htouch : previous.stop = start := by simpa using htouch
    cases before with
    | nil => cases hhead
    | cons p before =>
      cases hhead
      have hsplit : (previous :: before).reverse ++ buffer.setFragment start stop :: after =
          before.reverse ++ previous :: buffer.setFragment start stop :: after := by simp
      rw [hsplit] at hinserted
      exact hinserted.join (p := previous) (q := buffer.setFragment start stop) htouch rfl rfl rfl rfl
        (.inr rfl)
  next _ _ next _ hnext =>
    obtain ⟨hhead, htouch⟩ := Option.filter_eq_some_iff.1 hnext
    have htouch : next.start = stop := by simpa using htouch
    cases after with
    | nil => cases hhead
    | cons q after =>
      cases hhead
      exact hinserted.join (p := buffer.setFragment start stop) (q := next) htouch.symm rfl rfl rfl rfl
        (.inl rfl)
  next => exact hinserted

/-- The bytes of a fragment are all there already, or the fragment does not overlap data behind its
start, and it is not another first fragment. -/
def Clean (buffers : List NetBuffer) (start stop : ℕ) : Prop :=
  (∃ b ∈ buffers, b.start ≤ start ∧ stop ≤ b.stop) ∨
    (∀ b ∈ buffers, start < b.start → stop ≤ b.start) ∧ (start = 0 → ∀ b ∈ buffers, b.start ≠ 0)

structure Holds (payload : List UInt8) (received : List Fragment) (packet : FragmentPacket) :
    Prop where
  slices : Slices payload received packet.fragments
  covers : ∀ x, InSpans (packet.fragments.map NetBuffer.span) x ↔
    InSpans (received.map Fragment.span) x
  stop_le : ∀ f ∈ received, f.stop ≤ payload.length
  last : packet.receivedLastFragment = true ↔ ∃ f ∈ received, f.stop = payload.length
  left : packet.bytesLeft = maxPacket - total (packet.fragments.map NetBuffer.span) -
    if packet.receivedLastFragment then maxPacket - payload.length else 0
  nodup : (packet.fragments.map NetBuffer.address).Nodup
  payload_le : payload.length ≤ 65535

lemma holds_init (hle : payload.length ≤ 65535) : Holds payload [] .init where
  slices := ⟨⟨0, Nat.zero_le _, rfl⟩, fun b hb => by cases hb⟩
  covers x := Iff.rfl
  stop_le f hf := by cases hf
  last := by simp [FragmentPacket.init]
  left := rfl
  nodup := List.nodup_nil
  payload_le := hle

variable {packet : FragmentPacket} {f : Fragment}

lemma Slices.mono (h : Slices payload received buffers) (f : Fragment) :
    Slices payload (received ++ [f]) buffers where
  spans := h.spans
  data b hb := by
    obtain ⟨header, hheader, hdata⟩ := h.data b hb
    refine ⟨header, ?_, hdata⟩
    unfold IsHeader at hheader ⊢
    split at hheader
    next hzero =>
      obtain ⟨g, hg, hgheader⟩ := hheader
      rw [if_pos hzero]
      exact ⟨g, List.mem_append_left _ hg, hgheader⟩
    next hne =>
      rw [if_neg hne]
      exact hheader

lemma inSpans_concat (received : List Fragment) (f : Fragment) :
    InSpans ((received ++ [f]).map Fragment.span) x ↔
      InSpans (received.map Fragment.span) x ∨ f.start ≤ x ∧ x < f.stop := by
  rw [List.map_append, inSpans_append]
  simp [InSpans, Fragment.span]

lemma Holds.drop (h : Holds payload received packet) (hlt : f.start < f.stop)
    (hle : f.stop ≤ payload.length) (hb : buffer ∈ packet.fragments)
    (hstart : buffer.start ≤ f.start) (hstop : f.stop ≤ buffer.stop) :
    Holds payload (received ++ [f]) packet := by
  have hbounds := h.slices.bounds buffer hb
  have hcovered : ∀ x, f.start ≤ x → x < f.stop → InSpans (received.map Fragment.span) x := by
    intro x hx hx'
    rw [← h.covers x]
    exact ⟨buffer.span, List.mem_map_of_mem hb, by show buffer.start ≤ x; omega,
      by show x < buffer.stop; omega⟩
  refine ⟨h.slices.mono f, ?_, ?_, ?_, h.left, h.nodup, h.payload_le⟩
  · intro x
    rw [h.covers x, inSpans_concat]
    constructor
    · exact .inl
    · intro hx
      rcases hx with hx | hx
      · exact hx
      · exact hcovered x hx.1 hx.2
  · intro g hg
    rcases List.mem_append.1 hg with hg | hg
    · exact h.stop_le g hg
    · rw [List.mem_singleton.1 hg]
      exact hle
  · rw [h.last]
    constructor
    · rintro ⟨g, hg, hgstop⟩
      exact ⟨g, List.mem_append_left _ hg, hgstop⟩
    · rintro ⟨g, hg, hgstop⟩
      rcases List.mem_append.1 hg with hg | hg
      · exact ⟨g, hg, hgstop⟩
      · -- the last byte was received before, with a fragment that was the last one, too
        rw [List.mem_singleton.1 hg] at hgstop
        obtain ⟨s, hs, hsx⟩ := hcovered (f.stop - 1) (by omega) (by omega)
        obtain ⟨r, hr, hrs⟩ := List.mem_map.1 hs
        have hle := h.stop_le r hr
        have hrstop : r.stop = s.2 := by
          rw [← hrs]
          rfl
        exact ⟨r, hr, by omega⟩

lemma Slices.stop_le (h : Slices payload received ((previous :: before).reverse ++ after))
    {p : NetBuffer} (hp : p ∈ before) : p.stop ≤ previous.start := by
  obtain ⟨hi, _, hspans⟩ := h.spans
  rw [List.reverse_cons, List.append_assoc, List.map_append, List.map_append, List.map_singleton]
    at hspans
  obtain ⟨m, hbefore, hm, _⟩ := spans_append.1 hspans
  have hbounds := hbefore.start_ge (List.mem_map_of_mem (List.mem_reverse.2 hp))
  exact hbounds.2.2.trans hm

/-- The position of a fragment whose bytes are not all there. -/
structure Position (payload : List UInt8) (received : List Fragment)
    (before after : List NetBuffer) (start stop : ℕ) : Prop where
  slices : Slices payload received (before.reverse ++ after)
  behind : ∀ p ∈ before.head?, p.start ≤ start ∧ p.stop < stop
  ahead : ∀ q ∈ after, start < q.start
  clean : Clean (before.reverse ++ after) start stop

section

variable (h : Position payload received before after start stop)
include h

lemma Position.noOverlap (hlt : start < stop) :
    (∀ q ∈ after, stop ≤ q.start) ∧ (start = 0 → before = []) := by
  rcases h.clean with ⟨b, hb, hstart, hstop⟩ | ⟨hahead, hfirst⟩
  · -- the fragment in front of the position would cover the new one
    rcases List.mem_append.1 hb with hb | hb
    · cases before with
      | nil => cases hb
      | cons previous before =>
        have hprevious := h.behind previous rfl
        rcases List.mem_cons.1 (List.mem_reverse.1 hb) with hb | hb
        · rw [hb] at hstop
          omega
        · have hle := h.slices.stop_le hb
          omega
    · have hgt := h.ahead b hb
      omega
  · refine ⟨fun q hq => hahead q (List.mem_append_right _ hq) (h.ahead q hq), fun hzero => ?_⟩
    cases before with
    | nil => rfl
    | cons previous before =>
      have hprevious := h.behind previous rfl
      have hne := hfirst hzero previous (by simp)
      omega

lemma Position.fits (hlt : start < stop)
    (hle : stop ≤ payload.length) {header : List UInt8} (hheader : IsHeader received start header)
    (hdata : buffer.data = header ++ slice payload start stop)
    (hnodup : ((before.reverse ++ after).map NetBuffer.address).Nodup)
    (hfresh : ∀ b ∈ before.reverse ++ after, b.address ≠ buffer.address) :
    ∃ buffer' start', FragmentPacket.truncateStart before.head? buffer start = (buffer', start') ∧
      FragmentPacket.truncateStop after.head? buffer' stop = (buffer', stop) ∧
      Fits payload received before after buffer' start' stop ∧ buffer'.address = buffer.address ∧
      start ≤ start' ∧
      ∀ x, start ≤ x → x < start' → InSpans ((before.reverse ++ after).map NetBuffer.span) x := by
  obtain ⟨hahead, hfirst⟩ := h.noOverlap hlt
  have hstop : ∀ b : NetBuffer, FragmentPacket.truncateStop after.head? b stop = (b, stop) := by
    intro b
    cases after with
    | nil => rfl
    | cons q after =>
      have hq := hahead q List.mem_cons_self
      exact if_neg (by omega)
  cases before with
  | nil =>
    refine ⟨buffer, start, rfl, hstop _, ⟨h.slices, hlt, hle, fun p hp => (by cases hp), hahead,
      ⟨header, hheader, hdata⟩, hnodup, hfresh⟩, rfl, le_refl _, fun x hx hx' => ?_⟩
    omega
  | cons previous before =>
    obtain ⟨hstart, hnot⟩ := h.behind previous rfl
    have hbefore : ∀ p ∈ before, p.stop ≤ previous.start := fun p hp => h.slices.stop_le hp
    have hbounds := h.slices.bounds previous (by simp)
    by_cases hover : previous.stop > start
    · have hne : start ≠ 0 := fun hzero => List.cons_ne_nil _ _ (hfirst hzero)
      have hnone : header = [] := by
        unfold IsHeader at hheader
        rwa [if_neg hne] at hheader
      rw [hnone, List.nil_append] at hdata
      have hsize : buffer.size = stop - start := by
        rw [NetBuffer.size, hdata, length_slice hle]
      have hremove : buffer.removeHeader (previous.stop - start) =
          { buffer with data := slice payload previous.stop stop } := by
        unfold NetBuffer.removeHeader
        rw [if_neg (by omega), hdata, drop_slice hover.le]
      refine ⟨{ buffer with data := slice payload previous.stop stop }, previous.stop, ?_, hstop _,
        ⟨h.slices, hnot, hle, ?_, hahead, ⟨[], ?_, rfl⟩, hnodup, hfresh⟩, rfl, hover.le, ?_⟩
      · rw [← hremove]
        exact if_pos hover
      · intro p hp
        rcases List.mem_cons.1 hp with hp | hp
        · rw [hp]
        · have hle := hbefore p hp
          omega
      · unfold IsHeader
        rw [if_neg (by omega)]
      · intro x hx hx'
        exact ⟨previous.span, List.mem_map_of_mem (by simp), by show previous.start ≤ x; omega, hx'⟩
    · refine ⟨buffer, start, if_neg hover, hstop _, ⟨h.slices, hlt, hle, ?_, hahead,
        ⟨header, hheader, hdata⟩, hnodup, hfresh⟩, rfl, le_refl _, fun x hx hx' => ?_⟩
      · intro p hp
        rcases List.mem_cons.1 hp with hp | hp
        · rw [hp]
          omega
        · have hle := hbefore p hp
          omega
      · omega

end

lemma cutHole_spec {bytesLeft : ℤ} {n : ℕ} (hleft : packet.bytesLeft = maxPacket - bytesLeft -
      if packet.receivedLastFragment then maxPacket - n else 0)
    (hle : start ≤ stop) (hn : n ≤ 65535) (hnonneg : 0 ≤ bytesLeft)
    (hbytes : bytesLeft + (stop - start) ≤ n) :
    ∀ last, (last = true → stop = n) →
      (packet.cutHole start stop last).receivedLastFragment =
        (packet.receivedLastFragment || last) ∧
      (packet.cutHole start stop last).bytesLeft = maxPacket - (bytesLeft + (stop - start)) -
        if (packet.cutHole start stop last).receivedLastFragment then maxPacket - n else 0 := by
  have hmax : maxPacket = 65535 := rfl
  have hcut : int32 (packet.bytesLeft - (stop - start)) = packet.bytesLeft - (stop - start) := by
    rw [hleft]
    split <;> exact int32_eq (by omega) (by omega)
  intro last hlast
  unfold FragmentPacket.cutHole
  dsimp only
  rw [hcut]
  cases hreceived : packet.receivedLastFragment with
  | true =>
    rw [hreceived] at hleft
    simp only [Bool.not_true, Bool.and_false, Bool.false_eq_true, if_false, Bool.true_or, if_true]
      at hleft ⊢
    simp only [true_and]
    omega
  | false =>
    rw [hreceived] at hleft
    simp only [Bool.false_eq_true, if_false] at hleft
    cases last with
    | true =>
      have hend := hlast rfl
      simp only [Bool.not_false, Bool.and_self, if_true, Bool.or_true, true_and]
      rw [int32_eq (by omega) (by omega)]
      omega
    | false =>
      simp only [Bool.not_false, Bool.false_and, Bool.false_eq_true, if_false, Bool.or_false,
        true_and]
      omega

lemma Holds.addFragment (h : Holds payload received packet) (hlt : f.start < f.stop)
    (hle : f.stop ≤ payload.length) (hclean : Clean packet.fragments f.start f.stop)
    (hdata : buffer.data =
      (if f.start = 0 then f.header else []) ++ slice payload f.start f.stop)
    (hfresh : ∀ b ∈ packet.fragments, b.address ≠ buffer.address) :
    ∃ packet', packet.addFragment f.start f.stop buffer (f.stop = payload.length) =
        (packet', .ok) ∧ Holds payload (received ++ [f]) packet' ∧
      (packet' = packet ∨ ∃ b ∈ packet'.fragments, b.address = buffer.address) := by
  obtain ⟨hsplit, hhead, hafter⟩ := findPosition_spec f.start packet.fragments.reverse []
  have hafter := hafter fun q hq => (by cases hq)
  unfold FragmentPacket.addFragment
  rw [if_neg (by omega)]
  generalize hposition : FragmentPacket.findPosition f.start packet.fragments.reverse [] = position
    at hsplit hhead hafter ⊢
  obtain ⟨before, after⟩ := position
  dsimp only at hsplit hhead hafter ⊢
  rw [List.reverse_reverse, List.append_nil] at hsplit
  split
  next hthere =>
    -- we have the data already
    cases before with
    | nil => cases hthere
    | cons previous before =>
      have ⟨hstart, hstop⟩ : previous.start ≤ f.start ∧ previous.stop ≥ f.stop := by
        simpa using hthere
      have hmem : previous ∈ packet.fragments := by
        rw [← hsplit]
        simp
      exact ⟨packet, rfl, h.drop hlt hle hmem hstart hstop, .inl rfl⟩
  next hnot =>
    have hposition : Position payload (received ++ [f]) before after f.start f.stop := by
      constructor
      · rw [hsplit]
        exact h.slices.mono f
      · intro p hp
        have hstart := hhead p hp
        have hp : before.head? = some p := hp
        rw [hp, Option.any_some] at hnot
        have hstop : ¬(p.start ≤ f.start ∧ p.stop ≥ f.stop) := by simpa using hnot
        omega
      · exact hafter
      · rw [hsplit]
        exact hclean
    have hheader : IsHeader (received ++ [f]) f.start (if f.start = 0 then f.header else []) := by
      unfold IsHeader
      split
      · exact ⟨f, by simp, by assumption, rfl⟩
      · rfl
    obtain ⟨buffer', start', hstart, hstop, hfits, haddress, hge, hthere⟩ :=
      hposition.fits hlt hle hheader hdata (by rw [hsplit]; exact h.nodup)
        (by rw [hsplit]; exact hfresh)
    rw [hstart]
    dsimp only
    rw [hstop]
    dsimp only
    have hinserted := hfits.insertFragment
    rw [hsplit] at hinserted hthere
    generalize FragmentPacket.insertFragment before after buffer' start' f.stop = new at hinserted ⊢
    refine ⟨_, rfl, ?_, .inr ?_⟩
    · obtain ⟨hi, hhi, hspans⟩ := hinserted.slices.spans
      have htotalLe := hspans.total_le
      have htotal := hinserted.total_eq
      obtain ⟨hlast, hleft⟩ := cutHole_spec h.left hfits.lt.le h.payload_le (by omega) (by omega)
        (decide (f.stop = payload.length)) (by simp)
      refine ⟨hinserted.slices, ?_, ?_, ?_, ?_, hinserted.nodup, h.payload_le⟩
      · intro x
        rw [hinserted.covers x, h.covers x, inSpans_concat, ← h.covers x]
        constructor
        · intro hx
          rcases hx with hx | hx
          · exact .inl hx
          · exact .inr (by omega)
        · intro hx
          rcases hx with hx | hx
          · exact .inl hx
          · by_cases hbefore : x < start'
            · exact .inl (hthere x hx.1 hbefore)
            · exact .inr (by omega)
      · intro g hg
        rcases List.mem_append.1 hg with hg | hg
        · exact h.stop_le g hg
        · rw [List.mem_singleton.1 hg]
          exact hle
      · show (packet.cutHole start' f.stop _).receivedLastFragment = true ↔ _
        rw [hlast, Bool.or_eq_true, h.last, decide_eq_true_eq]
        constructor
        · intro hreceived
          rcases hreceived with ⟨g, hg, hgstop⟩ | hfstop
          · exact ⟨g, List.mem_append_left _ hg, hgstop⟩
          · exact ⟨f, by simp, hfstop⟩
        · rintro ⟨g, hg, hgstop⟩
          rcases List.mem_append.1 hg with hg | hg
          · exact .inl ⟨g, hg, hgstop⟩
          · rw [List.mem_singleton.1 hg] at hgstop
            exact .inr hgstop
      · show (packet.cutHole start' f.stop _).bytesLeft = maxPacket - _ - _
        have hstart' := hfits.lt
        have hsum : (total (packet.fragments.map NetBuffer.span) : ℤ) + (f.stop - start') =
            total (new.map NetBuffer.span) := by omega
        rw [hleft, hsum]
    · rw [← haddress]
      exact hinserted.mem

/-! ## Complete packets -/

/-- The whole payload was received, with the last fragment. -/
def Covers (payload : List UInt8) (received : List Fragment) : Prop :=
  (∀ x < payload.length, InSpans (received.map Fragment.span) x) ∧
    ∃ f ∈ received, f.stop = payload.length

lemma Holds.isComplete_iff (h : Holds payload received packet) :
    packet.isComplete = true ↔ Covers payload received := by
  obtain ⟨hi, hhi, hspans⟩ := h.slices.spans
  have htotalLe := hspans.total_le
  have hleft := h.left
  have hout : ¬InSpans (packet.fragments.map NetBuffer.span) payload.length := by
    intro hx
    have hbounds := hspans.bounds hx
    omega
  unfold FragmentPacket.isComplete Covers
  rw [Bool.and_eq_true, decide_eq_true_eq, h.last, and_comm]
  apply and_congr_left
  intro hlast
  rw [if_pos (h.last.2 hlast)] at hleft
  have hzero : packet.bytesLeft = 0 ↔
      total (packet.fragments.map NetBuffer.span) = payload.length := by omega
  rw [hzero]
  constructor
  · intro htotal x hx
    have hend : hi = payload.length := by omega
    have hfree := hspans.total_eq_iff.1 (by omega)
    rw [← h.covers x]
    exact hspans.covered_of_lt (Nat.zero_le _) (by omega)
  · intro hcovered
    have hfree : gapFree 0 (packet.fragments.map NetBuffer.span) = payload.length :=
      hspans.gapFree_eq (Nat.zero_le _) (fun x _ hx => (h.covers x).2 (hcovered x hx)) hout
    have hend := hspans.gapFree_bounds
    have htotal := hspans.total_eq_iff.2 (by omega)
    omega

lemma first_of_gapFree (hspans : Spans lo ((buffer :: buffers).map NetBuffer.span) hi)
    (hfree : gapFree lo ((buffer :: buffers).map NetBuffer.span) = hi) :
    buffer.start = lo ∧ buffer.start < buffer.stop ∧ buffer.stop ≤ hi ∧
      Spans buffer.stop (buffers.map NetBuffer.span) hi ∧
      gapFree buffer.stop (buffers.map NetBuffer.span) = hi := by
  obtain ⟨hge, hlt, hrest⟩ := hspans
  have hge : lo ≤ buffer.start := hge
  have hlt : buffer.start < buffer.stop := hlt
  have hstop : buffer.stop ≤ hi := hrest.le
  have hfree :
    (if buffer.start = lo then gapFree buffer.stop (buffers.map NetBuffer.span) else lo) =
      hi := hfree
  have hstart : buffer.start = lo := by
    by_contra hne
    rw [if_neg hne] at hfree
    omega
  rw [if_pos hstart] at hfree
  exact ⟨hstart, hlt, hstop, hrest, hfree⟩

lemma flatten_of_gapFree (hlo : lo ≠ 0) (hle : hi ≤ payload.length)
    (hspans : Spans lo (buffers.map NetBuffer.span) hi)
    (hfree : gapFree lo (buffers.map NetBuffer.span) = hi)
    (hdata : ∀ b ∈ buffers, ∃ header, IsHeader received b.start header ∧
      b.data = header ++ slice payload b.start b.stop) :
    (buffers.map NetBuffer.data).flatten = slice payload lo hi := by
  induction buffers generalizing lo with
  | nil =>
    have hhi : hi = lo := hspans
    have hnil : (slice payload lo hi).length = hi - lo := length_slice hle
    rw [hhi] at hnil ⊢
    exact (List.eq_nil_of_length_eq_zero (by omega)).symm
  | cons b buffers ih =>
    obtain ⟨hstart, hlt, hstop, hrest, hfree⟩ := first_of_gapFree hspans hfree
    obtain ⟨header, hheader, hb⟩ := hdata b List.mem_cons_self
    have hnone : header = [] := by
      unfold IsHeader at hheader
      rwa [if_neg (by omega)] at hheader
    have hflatten := ih (by omega) hrest hfree
      fun c hc => hdata c (List.mem_cons_of_mem _ hc)
    rw [List.map_cons, List.flatten_cons, hflatten, hb, hnone, List.nil_append, hstart]
    exact slice_append (by omega) hstop hle

lemma Holds.flatten (h : Holds payload received packet) (hcomplete : packet.isComplete = true)
    (hne : packet.fragments ≠ []) : ∃ f ∈ received, f.start = 0 ∧
      (packet.fragments.map NetBuffer.data).flatten = f.header ++ payload := by
  obtain ⟨hcovered, hlast⟩ := h.isComplete_iff.1 hcomplete
  obtain ⟨hi, hhi, hspans⟩ := h.slices.spans
  have hout : ¬InSpans (packet.fragments.map NetBuffer.span) payload.length := by
    intro hx
    have hbounds := hspans.bounds hx
    omega
  have hfree : gapFree 0 (packet.fragments.map NetBuffer.span) = payload.length :=
    hspans.gapFree_eq (Nat.zero_le _) (fun x _ hx => (h.covers x).2 (hcovered x hx)) hout
  have hend := hspans.gapFree_bounds
  have hdata := h.slices.data
  generalize packet.fragments = buffers at hne hspans hfree hdata hend
  cases buffers with
  | nil => exact absurd rfl hne
  | cons b buffers =>
    have hhi : hi = payload.length := by omega
    obtain ⟨hstart, hlt, hstop, hrest, hfree⟩ := first_of_gapFree hspans (by rw [hfree, hhi])
    obtain ⟨header, hheader, hb⟩ := hdata b List.mem_cons_self
    unfold IsHeader at hheader
    rw [if_pos hstart] at hheader
    obtain ⟨f, hf, hfstart, hfheader⟩ := hheader
    have hflatten := flatten_of_gapFree (by omega) hhi.le hrest hfree
      fun c hc => hdata c (List.mem_cons_of_mem _ hc)
    refine ⟨f, hf, hfstart, ?_⟩
    rw [List.map_cons, List.flatten_cons, hflatten, hb, hfheader, List.append_assoc, hstart, hhi,
      slice_append (Nat.zero_le _) (by omega) (le_refl _), slice_all]

lemma mergeFragments_spec (target : ℕ) (b : NetBuffer) (buffers : List NetBuffer) :
    ∃ r, FragmentPacket.mergeFragments target (some b) buffers = some r ∧
      r.data = b.data ++ (buffers.map NetBuffer.data).flatten ∧
      (b.address = target ∨ (∃ c ∈ buffers, c.address = target) → r.address = target) := by
  induction buffers generalizing b with
  | nil =>
    refine ⟨b, rfl, by simp, ?_⟩
    intro htarget
    rcases htarget with htarget | ⟨c, hc, _⟩
    · exact htarget
    · cases hc
  | cons c buffers ih =>
    unfold FragmentPacket.mergeFragments
    split
    next hc =>
      obtain ⟨r, hr, hdata, haddress⟩ := ih (c.merge b false)
      refine ⟨r, hr, ?_, fun _ => haddress (.inl hc.symm)⟩
      rw [hdata, List.map_cons, List.flatten_cons, ← List.append_assoc]
      rfl
    next hc =>
      obtain ⟨r, hr, hdata, haddress⟩ := ih (b.merge c true)
      refine ⟨r, hr, ?_, ?_⟩
      · rw [hdata, List.map_cons, List.flatten_cons, ← List.append_assoc]
        rfl
      · intro htarget
        apply haddress
        rcases htarget with htarget | ⟨d, hd, hdtarget⟩
        · exact .inl htarget
        · rcases List.mem_cons.1 hd with hd | hd
          · rw [hd] at hdtarget
            exact absurd hdtarget.symm hc
          · exact .inr ⟨d, hd, hdtarget⟩

lemma Holds.reassemble (h : Holds payload received packet) (hcomplete : packet.isComplete = true)
    {target : ℕ} (hmem : ∃ b ∈ packet.fragments, b.address = target) :
    ∃ r f, packet.reassemble target = some (.ok r) ∧ r.address = target ∧ f ∈ received ∧
      f.start = 0 ∧ r.data = f.header ++ payload := by
  obtain ⟨b, hb, hbtarget⟩ := hmem
  obtain ⟨f, hf, hstart, hflatten⟩ := h.flatten hcomplete (List.ne_nil_of_mem hb)
  unfold FragmentPacket.reassemble
  rw [if_pos hcomplete]
  cases hfragments : packet.fragments with
  | nil =>
    rw [hfragments] at hb
    cases hb
  | cons c buffers =>
    rw [hfragments] at hb hflatten
    obtain ⟨r, hr, hdata, haddress⟩ := mergeFragments_spec target c buffers
    have hrtarget : r.address = target := by
      apply haddress
      rcases List.mem_cons.1 hb with hb | hb
      · exact .inl (by rw [← hb, hbtarget])
      · exact .inr ⟨b, hb, hbtarget⟩
    refine ⟨r, f, ?_, hrtarget, hf, hstart, ?_⟩
    · unfold FragmentPacket.mergeFragments
      rw [hr]
      exact if_pos hrtarget
    · rw [hdata, ← hflatten]
      rfl

end Haiku.IPv4
