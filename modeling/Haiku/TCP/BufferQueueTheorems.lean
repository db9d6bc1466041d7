import Haiku.TCP.BufferQueue

/-!
# TCP receive reassembly

The queue refines a list of spans of the stream: on buffers that carry spans within `2^31` of the
first sequence number, every function of the queue does to the buffers what the function of the
same name does to the spans.
-/

namespace Haiku.TCP

open Lib

variable {α : Type} {stream : ℕ → α} {initial : Sequence}

/-! ## Buffers of a stream -/

@[simp] lemma length_slice {a b : ℕ} : (slice stream a b).length = b - a := by
  simp [slice]

lemma drop_slice {a b n : ℕ} : (slice stream a b).drop n = slice stream (a + n) b := by
  have hlen : b - a - n = b - (a + n) := by omega
  simp only [slice, ← List.map_drop, List.drop_range', Nat.mul_one, hlen]

lemma take_slice {a b n : ℕ} (h : a + n ≤ b) :
    (slice stream a b).take n = slice stream a (a + n) := by
  have hlen : a + n - a = n := by omega
  have hge : b - a ≥ n := by omega
  simp only [slice, ← List.map_take, List.take_range'_of_length_ge hge, hlen]

lemma slice_append {a b c : ℕ} (hab : a ≤ b) (hbc : b ≤ c) :
    slice stream a b ++ slice stream b c = slice stream a c := by
  have hb : b = a + (b - a) := by omega
  have hc : c - a = (b - a) + (c - b) := by omega
  rw [slice, slice, slice, ← List.map_append, hc, ← List.range'_append_1, ← hb]

/-- A span within `2^31` of the first position. -/
structure Near (first : ℕ) (a : Span) : Prop where
  ge : first ≤ a.1
  lt : a.1 < a.2
  near : a.2 < first + 0x80000000

variable {first : ℕ} {a b : Span} {l before after : List Span} {n : ℕ}

lemma size_buffered : (buffered stream initial a).size = a.2 - a.1 := length_slice

lemma stop_buffered (h : a.1 ≤ a.2) : (buffered stream initial a).stop = seqAt initial a.2 := by
  rw [NetBuffer.stop, size_buffered, buffered, seqAt_add]
  congr 1
  omega

lemma removeHeader_buffered {p : ℕ} (h : a.1 ≤ p) :
    (buffered stream initial a).removeHeader (p - a.1) (seqAt initial p) =
      buffered stream initial (p, a.2) := by
  simp only [NetBuffer.removeHeader, buffered, drop_slice]
  congr 2
  omega

lemma removeTrailer_buffered {p : ℕ} (h : a.1 ≤ p) (hp : p ≤ a.2) :
    (buffered stream initial a).removeTrailer (a.2 - p) = buffered stream initial (a.1, p) := by
  simp only [NetBuffer.removeTrailer, size_buffered]
  simp only [buffered]
  rw [take_slice (by omega)]
  congr 2
  omega

/-! ## The functions of the queue on buffers of a stream -/

lemma findPlace_buffered {x : ℕ} (after : List Span) (hx : first ≤ x) (hx' : x < first + 0x80000000)
    (hbefore : ∀ p ∈ before, Near first p) :
    BufferQueue.findPlace (seqAt initial x) (before.map (buffered stream initial))
        (after.map (buffered stream initial)) =
      ((place x before after).1.map (buffered stream initial),
        (place x before after).2.map (buffered stream initial)) := by
  induction before generalizing after with
  | nil => rfl
  | cons p before ih =>
    have hp := hbefore p List.mem_cons_self
    have hge := hp.ge
    have hlt := hp.lt
    have hnear := hp.near
    have hcompare : Sequence.ge (seqAt initial x) (buffered stream initial p).sequence =
        decide (x ≥ p.1) := ge_seqAt (by omega) (by omega)
    rw [List.map_cons, BufferQueue.findPlace, place, hcompare]
    by_cases hle : x ≥ p.1
    · simp [hle]
    · have hrest := ih (p :: after) fun q hq => hbefore q (List.mem_cons_of_mem _ hq)
      simpa [hle] using hrest

lemma trimPrevious_buffered (ha : Near first a) (hbefore : ∀ p ∈ before, Near first p) :
    BufferQueue.trimPrevious (buffered stream initial a) (before.map (buffered stream initial)) n =
      ((trimPrevious a before n).1.map (buffered stream initial),
        (trimPrevious a before n).2.1.map (buffered stream initial),
        (trimPrevious a before n).2.2) := by
  cases before with
  | nil => rfl
  | cons p before =>
    have hp := hbefore p List.mem_cons_self
    obtain ⟨hage, halt, hanear⟩ := ha
    obtain ⟨hge, hlt, hnear⟩ := hp
    have hsame : (buffered stream initial a).sequence = (buffered stream initial p).sequence ↔
        a.1 = p.1 := seqAt_inj (by omega) (by omega)
    have hcovers : Sequence.ge (seqAt initial p.2) (seqAt initial a.2) = decide (p.2 ≥ a.2) :=
      ge_seqAt (by omega) (by omega)
    have hover : Sequence.gt (seqAt initial p.2) (buffered stream initial a).sequence =
        decide (p.2 > a.1) := gt_seqAt (by omega) (by omega)
    simp only [List.map_cons, BufferQueue.trimPrevious, trimPrevious, hsame, size_buffered,
      stop_buffered halt.le, stop_buffered hlt.le, hcovers, hover, decide_eq_true_eq]
    split
    · split <;> rfl
    · split
      · rfl
      · split
        · rename_i hgt
          have hbytes : (seqAt initial p.2 - (buffered stream initial a).sequence).toNat =
              p.2 - a.1 := toNat_seqAt_sub (by omega) (by omega)
          rw [hbytes, removeHeader_buffered (by omega)]
          rfl
        · rfl

lemma swallow_buffered (ha : Near first a) (hafter : ∀ p ∈ after, Near first p) :
    BufferQueue.swallow (buffered stream initial a) (after.map (buffered stream initial)) n =
      ((swallow a after n).1.map (buffered stream initial),
        (swallow a after n).2.1.map (buffered stream initial), (swallow a after n).2.2) := by
  induction after generalizing n with
  | nil => rfl
  | cons p after ih =>
    have hp := hafter p List.mem_cons_self
    have hrest := fun n => ih (n := n) fun q hq => hafter q (List.mem_cons_of_mem _ hq)
    obtain ⟨hage, halt, hanear⟩ := ha
    obtain ⟨hge, hlt, hnear⟩ := hp
    have hover : Sequence.gt (seqAt initial a.2) (buffered stream initial p).sequence =
        decide (a.2 > p.1) := gt_seqAt (by omega) (by omega)
    have hcovers : Sequence.le (seqAt initial p.2) (seqAt initial a.2) = decide (p.2 ≤ a.2) :=
      le_seqAt (by omega) (by omega)
    have hlater : Sequence.gt (buffered stream initial p).sequence
        (buffered stream initial a).sequence = decide (p.1 > a.1) := gt_seqAt (by omega) (by omega)
    simp only [List.map_cons, BufferQueue.swallow, swallow, size_buffered, stop_buffered halt.le,
      stop_buffered hlt.le, hover, hcovers, hlater, decide_eq_true_eq, hrest]
    split
    · split
      · rfl
      · split
        · rename_i hgt _ _
          have hbytes : (seqAt initial a.2 - (buffered stream initial p).sequence).toNat =
              a.2 - p.1 := toNat_seqAt_sub (by omega) (by omega)
          rw [hbytes, removeTrailer_buffered (by omega) (by omega)]
          rfl
        · rfl
    · rfl

lemma connect_buffered {c hi : ℕ} (hl : Spans (first + c) l hi) (hhi : hi < first + 0x80000000) :
    BufferQueue.connect (seqAt initial first) c (l.map (buffered stream initial)) =
      gapFree (first + c) l - first := by
  induction l generalizing c with
  | nil => simp [BufferQueue.connect, gapFree]
  | cons p l ih =>
    obtain ⟨hlo, hlt, hrest⟩ := hl
    have hle := hrest.le
    have hsame : seqAt initial (first + c) = (buffered stream initial p).sequence ↔
        first + c = p.1 := seqAt_inj (by omega) (by omega)
    rw [List.map_cons, BufferQueue.connect, seqAt_add, gapFree, size_buffered]
    by_cases heq : first + c = p.1
    · have hnext : first + (c + (p.2 - p.1)) = p.2 := by omega
      rw [if_pos (hsame.2 heq), if_pos heq.symm, ih (by rw [hnext]; exact hrest), hnext]
    · rw [if_neg (fun h => heq (hsame.1 h)), if_neg (fun h => heq h.symm)]
      omega

lemma lastContiguous_buffered {hi : ℕ} (hl : Spans first l hi) (hhi : hi < first + 0x80000000) :
    lastContiguous (seqAt initial first) (l.map (buffered stream initial)) =
      (lastFree first l).map (buffered stream initial) := by
  induction l generalizing first with
  | nil => rfl
  | cons p l ih =>
    obtain ⟨hlo, hlt, hrest⟩ := hl
    have hle := hrest.le
    have hsame : (buffered stream initial p).sequence = seqAt initial first ↔ p.1 = first :=
      seqAt_inj (by omega) (by omega)
    rw [List.map_cons, lastContiguous, lastFree, stop_buffered hlt.le]
    by_cases heq : p.1 = first
    · rw [if_pos (hsame.2 heq), if_pos heq, ih hrest (by omega)]
      cases lastFree p.2 l <;> rfl
    · rw [if_neg (fun h => heq (hsame.1 h)), if_neg heq]
      rfl

lemma hasHoleBehind_buffered {lo stop hi : ℕ} (hl : Spans lo l hi) (hlo : first ≤ lo)
    (hhi : hi < first + 0x80000000) (hstop : first ≤ stop) (hstop' : stop < first + 0x80000000) :
    hasHoleBehind (seqAt initial stop) (seqAt initial lo) (l.map (buffered stream initial)) =
      gapBehind stop lo l := by
  induction l generalizing lo with
  | nil => rfl
  | cons p l ih =>
    obtain ⟨hlop, hlt, hrest⟩ := hl
    have hle := hrest.le
    have hsame : (buffered stream initial p).sequence = seqAt initial lo ↔ p.1 = lo :=
      seqAt_inj (by omega) (by omega)
    have hbehind : Sequence.gt (buffered stream initial p).sequence (seqAt initial stop) =
        decide (p.1 > stop) := gt_seqAt (by omega) (by omega)
    rw [List.map_cons, hasHoleBehind, gapBehind, stop_buffered hlt.le, ih hrest (by omega), hbehind]
    simp only [ne_eq, hsame]

/-! ## The invariant -/

/-- The queue holds the spans `l` of the stream behind the position `first`. -/
structure Holds (stream : ℕ → α) (initial : Sequence) (q : BufferQueue α) (first : ℕ)
    (l : List Span) (last : ℕ) : Prop where
  list : q.list = l.map (buffered stream initial)
  spans : Spans first l last
  near : last < first + 0x80000000
  firstSeq : q.firstSequence = seqAt initial first
  lastSeq : q.lastSequence = seqAt initial last
  num : q.numBytes = total l
  contiguous : q.contiguousBytes = gapFree first l - first

variable {q : BufferQueue α} {last : ℕ}

lemma filled_iff {m : ℕ} (hl : Spans first l last) (hlast : last < first + 0x80000000)
    (hm : m = total l) :
    seqAt initial last - seqAt initial first = BitVec.ofNat 32 m ↔ gapFree first l = last := by
  have hle := hl.le
  have htotal := hl.total_le
  have hsub : (seqAt initial last - seqAt initial first).toNat = last - first :=
    toNat_seqAt_sub hle (by omega)
  rw [← hl.total_eq_iff, ← hm, ← BitVec.toNat_inj, hsub, BitVec.toNat_ofNat, Nat.mod_eq_of_lt (by omega)]
  exact eq_comm

lemma Holds.near_of_mem (hq : Holds stream initial q first l last) (ha : a ∈ l) :
    Near first a := by
  obtain ⟨hge, hlt, hle⟩ := hq.spans.start_ge ha
  have := hq.near
  exact ⟨hge, hlt, by omega⟩

lemma Holds.append (hq : Holds stream initial q first l last) (ha : Near first a)
    (hlast : last ≤ a.1) :
    Holds stream initial (q.append (buffered stream initial a)) first (l ++ [a]) a.2 := by
  have hbounds := hq.spans.gapFree_bounds
  have hspans : Spans first (l ++ [a]) a.2 := spans_append.2 ⟨last, hq.spans, hlast, ha.lt, rfl⟩
  have hlt := ha.lt
  have hnear := ha.near
  have hsame : (buffered stream initial a).sequence = q.lastSequence ↔ a.1 = last := by
    rw [hq.lastSeq]
    exact seqAt_inj (by omega) (by omega)
  have hfilled : q.lastSequence - q.firstSequence = BitVec.ofNat 32 q.numBytes ↔
      gapFree first l = last := by
    rw [hq.lastSeq, hq.firstSeq]
    exact filled_iff hq.spans hq.near hq.num
  refine ⟨by simp [BufferQueue.append, hq.list], hspans, hnear, hq.firstSeq,
    stop_buffered hlt.le, ?_, ?_⟩
  · simp [BufferQueue.append, hq.num, size_buffered, total_append, total]
  · simp only [BufferQueue.append, hsame, hfilled, size_buffered, hq.contiguous]
    by_cases hfull : a.1 = last ∧ gapFree first l = last
    · have hfree : gapFree first (l ++ [a]) = a.2 := by
        refine hspans.gapFree_eq (by omega) (fun x hx hx' => ?_) fun hc => ?_
        · rw [inSpans_append]
          by_cases hin : x < last
          · exact .inl (hq.spans.covered_of_lt hx (by omega))
          · exact .inr (inSpans_cons.2 (.inl ⟨by omega, hx'⟩))
        · have := (hspans.bounds hc).2
          omega
      rw [if_pos hfull, hfree]
      omega
    · have hfree : gapFree first (l ++ [a]) = gapFree first l := by
        refine hspans.gapFree_eq hbounds.1 (fun x hx hx' => ?_) fun hc => ?_
        · exact inSpans_append.2 (.inl (hq.spans.covered_of_lt hx hx'))
        · rcases inSpans_append.1 hc with hc | hc
          · exact hq.spans.not_covered_gapFree hc
          · rcases inSpans_cons.1 hc with hc | hc
            · exact hfull ⟨by omega, by omega⟩
            · exact inSpans_nil hc
      rw [if_neg hfull, hfree]

/-- A segment that does not straddle the end of the gap-free prefix: then the prefix grows only with
data that starts at its end, or the whole queue becomes gap-free. -/
def Fits (first : ℕ) (l : List Span) (a : Span) : Prop :=
  ∀ b, lastFree first l = some b → a.1 ≤ b.1 → b.2 < a.2 → gapBehind a.2 first l = false

/-- What `Add()` has made of the spans `l` when it links what is left of the span `a`. -/
structure Linked (first : ℕ) (l : List Span) (a new : Span) (before after : List Span)
    (n last : ℕ) : Prop where
  spans : Spans first (before.reverse ++ new :: after) last
  total : n + (new.2 - new.1) = total (before.reverse ++ new :: after)
  start : ∀ x, InSpans before x → x < new.1
  le : a.1 ≤ new.1
  /-- what the new span lost at its start is covered -/
  reach : ∀ x, a.1 ≤ x → x < new.1 → InSpans l x
  kept : ∀ p ∈ l, p.1 < a.1 → p.2 ≤ new.1
  covered : ∀ x, InSpans (before.reverse ++ new :: after) x ↔ InSpans l x ∨ a.1 ≤ x ∧ x < a.2

variable {new : Span} {hi : ℕ}

lemma Linked.gapFree_behind (hk : Linked first l a new before after n hi)
    (hl : Spans first l last) (hnew : gapFree first l = new.1) :
    gapFree first (before.reverse ++ new :: after) = gapFree new.1 (new :: after) := by
  obtain ⟨m, -, hm, hlt, hafter⟩ := spans_append.1 hk.spans
  have htail : Spans new.1 (new :: after) hi := ⟨le_rfl, hlt, hafter⟩
  have hbounds := htail.gapFree_bounds
  have hfirst := hl.gapFree_bounds.1
  refine hk.spans.gapFree_eq (by omega) (fun x hx hx' => ?_) fun hc => ?_
  · by_cases hin : x < new.1
    · exact (hk.covered x).2 (.inl (hl.covered_of_lt hx (by omega)))
    · exact inSpans_append.2 (.inr (htail.covered_of_lt (by omega) hx'))
  · rcases inSpans_append.1 hc with hc | hc
    · have := hk.start _ (inSpans_reverse.1 hc)
      omega
    · exact htail.not_covered_gapFree hc

lemma Linked.gapFree_same (hk : Linked first l a new before after n hi)
    (hl : Spans first l last) (hfits : Fits first l a) (ha : first ≤ a.1) (hhi : hi = max last a.2)
    (hnew : gapFree first l ≠ new.1)
    (hhole : gapFree first (before.reverse ++ new :: after) ≠ hi) :
    gapFree first (before.reverse ++ new :: after) = gapFree first l := by
  have hbounds := hl.gapFree_bounds
  have hle := hk.le
  refine hk.spans.gapFree_eq hbounds.1 (fun x hx hx' => ?_) fun hc => ?_
  · exact (hk.covered x).2 (.inl (hl.covered_of_lt hx hx'))
  rcases (hk.covered _).1 hc with hc | ⟨hstart, hstop⟩
  · exact hl.not_covered_gapFree hc
  have hnotreach : ¬ (a.1 ≤ gapFree first l ∧ gapFree first l < new.1) := fun h =>
    hl.not_covered_gapFree (hk.reach _ h.1 h.2)
  by_cases heq : a.1 = gapFree first l
  · omega
  -- the new span starts inside the prefix and ends behind it
  rcases hl.lastFree_spec with ⟨-, hempty⟩ | ⟨b, hb, hsome, hend⟩
  · omega
  by_cases hearly : a.1 ≤ b.1
  · -- it takes the place of the last span of the prefix, and so no gap is left behind it
    have hgap := hfits b hsome hearly (by omega)
    apply hhole
    refine hk.spans.gapFree_eq hk.spans.le (fun x hx hx' => ?_) fun hc => ?_
    · rw [hk.covered x]
      by_cases hfront : x < gapFree first l
      · exact .inl (hl.covered_of_lt hx hfront)
      · by_cases hin : x < a.2
        · exact .inr ⟨by omega, hin⟩
        · exact .inl (hl.covered_of_gapBehind hgap hx (by omega) (by omega))
    · have := (hk.spans.bounds hc).2
      omega
  · have := hk.kept b hb (by omega)
    omega

lemma Holds.link (hq : Holds stream initial q first l last) (ha : Near first a)
    (hfits : Fits first l a) (hk : Linked first l a new before after n hi) (hhi : hi = max last a.2) :
    Holds stream initial
      ({ q with lastSequence := seqAt initial hi }.link (buffered stream initial new)
        (before.map (buffered stream initial)) (after.map (buffered stream initial)) n)
      first (before.reverse ++ new :: after) hi := by
  have hage := ha.ge
  have hanear := ha.near
  have hnear := hq.near
  have hbounds := hq.spans.gapFree_bounds
  have hbounds' := hk.spans.gapFree_bounds
  obtain ⟨m, -, hm, hlt, hafter⟩ := spans_append.1 hk.spans
  have hle := hafter.le
  have hnewfirst : first ≤ new.1 := by
    have := hk.le
    omega
  have hfilled : seqAt initial hi - seqAt initial first = BitVec.ofNat 32 (n + (new.2 - new.1)) ↔
      gapFree first (before.reverse ++ new :: after) = hi :=
    filled_iff hk.spans (by omega) hk.total
  have hsame : seqAt initial (first + (gapFree first l - first)) =
      (buffered stream initial new).sequence ↔ gapFree first l = new.1 := by
    rw [Nat.add_sub_cancel' hbounds.1]
    exact seqAt_inj (by omega) (by omega)
  refine ⟨?_, hk.spans, by omega, hq.firstSeq, rfl, ?_, ?_⟩
  · simp [BufferQueue.link]
  · simp only [BufferQueue.link, size_buffered]
    exact hk.total
  · simp only [BufferQueue.link, size_buffered, hq.firstSeq, hfilled, hq.contiguous, seqAt_add, hsame]
    by_cases hfull : gapFree first (before.reverse ++ new :: after) = hi
    · rw [if_pos hfull, hfull, hk.total]
      exact hk.spans.total_eq_iff.2 hfull
    · rw [if_neg hfull]
      by_cases hnew : gapFree first l = new.1
      · have hc : first + (gapFree first l - first) = new.1 := by omega
        have htail : Spans (first + (gapFree first l - first)) (new :: after) hi := by
          rw [hc]
          exact ⟨le_rfl, hlt, hafter⟩
        have hconnect : BufferQueue.connect (seqAt initial first) (gapFree first l - first)
            ((new :: after).map (buffered stream initial)) = _ := connect_buffered htail (by omega)
        rw [if_pos hnew, hk.gapFree_behind hq.spans hnew]
        rw [hc] at hconnect
        exact hconnect
      · rw [if_neg hnew, hk.gapFree_same hq.spans hfits hage hhi hnew hfull]

lemma or_exchange {A A' B B' N N' P : Prop} (hbefore : B' ∨ N ↔ B ∨ P)
    (hafter : A' ∨ N' ↔ A ∨ N) : B' ∨ N' ∨ A' ↔ (B ∨ A) ∨ P := by
  tauto

lemma linked_of_room {new' : Span} {before' after' : List Span} {m m' n' : ℕ}
    (hsplit : before.reverse ++ after = l) (hbehind : ∀ p ∈ after, a.1 < p.1)
    (hnum : q.numBytes = total l) (ht : Trimmed first m a new before before' q.numBytes n)
    (hbefore' : Spans first before'.reverse m') (hm' : m' ≤ new.1)
    (hs : new'.1 = new.1 ∧ new'.1 < new'.2 ∧ Spans new'.2 after' hi ∧
      n' + total after = n + total after' ∧
      ∀ x, InSpans after' x ∨ new'.1 ≤ x ∧ x < new'.2 ↔ InSpans after x ∨ new.1 ≤ x ∧ x < new.2) :
    Linked first l a new' before' after' n' hi := by
  obtain ⟨hsame, hlt', hafter', htotal', hcovered'⟩ := hs
  have htotal := ht.total
  have hge := ht.ge
  have hall : total l = total before + total after := by
    rw [← hsplit, total_append, total_reverse]
  have hcovered : ∀ x, InSpans l x ↔ InSpans before x ∨ InSpans after x := fun x => by
    rw [← hsplit, inSpans_append, inSpans_reverse]
  refine ⟨?_, ?_, fun x hx => ?_, by omega, fun x hx hx' => ?_, fun p hp hpa => ?_, fun x => ?_⟩
  · exact spans_append.2 ⟨m', hbefore', by omega, hlt', hafter'⟩
  · rw [total_append, total_reverse, total]
    omega
  · have := (hbefore'.bounds (inSpans_reverse.2 hx)).2
    omega
  · rcases ht.start with h | ⟨h, -, -, hcov⟩
    · omega
    · exact (hcovered x).2 (.inl (hcov x hx (by omega)))
  · rw [← hsplit, List.mem_append, List.mem_reverse] at hp
    rcases hp with hp | hp
    · have hmem := ht.kept p hp (by omega)
      have := (hbefore'.start_ge (List.mem_reverse.2 hmem)).2.2
      omega
    · have := hbehind p hp
      omega
  · rw [inSpans_append, inSpans_reverse, inSpans_cons, hcovered x]
    exact or_exchange (ht.covered x) (hcovered' x)

lemma Holds.insert (hq : Holds stream initial q first l last) (ha : Near first a)
    (hfits : Fits first l a) (hlast : a.1 < last) :
    ∃ l', Holds stream initial (q.insert (buffered stream initial a)) first l' (max last a.2) ∧
      ∀ x, a.1 ≤ x → x < a.2 → InSpans l' x := by
  have hage := ha.ge
  have halt := ha.lt
  have hanear := ha.near
  have hnear := hq.near
  have hstop : (buffered stream initial a).stop = seqAt initial a.2 := stop_buffered halt.le
  have hlastSeq : (if q.lastSequence.lt (buffered stream initial a).stop then
      (buffered stream initial a).stop else q.lastSequence) = seqAt initial (max last a.2) := by
    rw [hstop, hq.lastSeq, lt_seqAt (by omega) (by omega)]
    by_cases hlt : last < a.2
    · simp [hlt, Nat.max_eq_right hlt.le]
    · simp [hlt, Nat.max_eq_left (Nat.le_of_not_lt hlt)]
  -- the list is split at the new data
  obtain ⟨hsplit, hhead, hbehind⟩ := place_spec a.1 l.reverse []
  have hfind : BufferQueue.findPlace (buffered stream initial a).sequence q.list.reverse [] =
      ((place a.1 l.reverse []).1.map (buffered stream initial),
        (place a.1 l.reverse []).2.map (buffered stream initial)) := by
    rw [hq.list, ← List.map_reverse]
    exact findPlace_buffered [] hage (by omega)
      fun p hp => hq.near_of_mem (List.mem_reverse.1 hp)
  have hbehind := hbehind (by simp)
  generalize place a.1 l.reverse [] = r at hsplit hhead hfind hbehind
  obtain ⟨before, after⟩ := r
  simp only [List.reverse_reverse, List.append_nil] at hsplit hhead hbehind
  obtain ⟨m, hbefore, hafter⟩ := spans_append.1 (hsplit ▸ hq.spans)
  have hnearb : ∀ p ∈ before, Near first p := fun p hp =>
    hq.near_of_mem (by rw [← hsplit]; simp [hp])
  have hneara : ∀ p ∈ after, Near first p := fun p hp =>
    hq.near_of_mem (by rw [← hsplit]; simp [hp])
  have htotal : total l = total before + total after := by
    rw [← hsplit, total_append, total_reverse]
  have hcovered : ∀ x, InSpans l x ↔ InSpans before x ∨ InSpans after x := fun x => by
    rw [← hsplit, inSpans_append, inSpans_reverse]
  simp only [BufferQueue.insert, hlastSeq, hfind, trimPrevious_buffered ha hnearb]
  rcases htrim : trimPrevious a before q.numBytes with ⟨_ | new, before', n⟩
  · -- the data is known already
    obtain ⟨-, -, hknown⟩ := trimPrevious_none halt hhead htrim
    have hend := (hq.spans.bounds ((hcovered _).2 (.inl (hknown (a.2 - 1) (by omega) (by omega))))).2
    have hmax : max last a.2 = last := by omega
    refine ⟨l, ?_, fun x hx hx' => (hcovered x).2 (.inl (hknown x hx hx'))⟩
    simp only [Option.map_none, hmax]
    exact ⟨hq.list, hq.spans, hq.near, hq.firstSeq, rfl, hq.num, hq.contiguous⟩
  · have ht := trimPrevious_some hbefore hage halt hhead (by rw [hq.num, htotal]; omega) htrim
    obtain ⟨m', hbefore', hm'⟩ := ht.spans
    have hge := ht.ge
    have hlt := ht.lt
    have hstop' := ht.stop
    have htotal' := ht.total
    have hnum := hq.num
    have hstarts : ∀ p ∈ after, new.1 ≤ p.1 := fun p hp => by
      rcases ht.start with h | ⟨h, -⟩
      · have := hbehind p hp
        omega
      · have := (hafter.start_ge hp).1
        omega
    have hnew : Near first new := ⟨by omega, hlt, by omega⟩
    simp only [Option.map_some, swallow_buffered hnew hneara]
    rcases hswallow : swallow new after n with ⟨_ | new', after', n'⟩
    · -- the data is known already, by the spans before and behind it
      obtain ⟨rfl, rfl, hknown, p, hp, hstart⟩ := swallow_none hafter hstarts hswallow
      obtain ⟨hm, rfl, rfl, hfront⟩ := ht.start.resolve_left fun h => by
        have := hbehind p hp
        omega
      have hend := (hafter.bounds (hknown (a.2 - 1) (by omega) (by omega))).2
      have hmax : max last a.2 = last := by omega
      refine ⟨l, ?_, fun x hx hx' => (hcovered x).2 ?_⟩
      · simp only [Option.map_none, hmax]
        refine ⟨?_, hq.spans, hq.near, hq.firstSeq, rfl, hq.num, hq.contiguous⟩
        rw [← List.map_reverse, ← List.map_append, hsplit]
      · rcases Nat.lt_or_ge x m with hfrontx | hbehindx
        · exact .inl (hfront x hx hfrontx)
        · exact .inr (hknown x (by omega) (by omega))
    · obtain ⟨hsame, hlt', hle', hafter', htotal'', hcovered'⟩ :=
        swallow_some hafter hlt hstarts (by omega) hswallow
      have hend : (if after = [] then new.2 else max last new.2) = max last a.2 := by
        split
        · rename_i hempty
          rw [hempty] at hafter
          have : last = m := hafter
          have := ht.behind
          omega
        · rw [hstop']
      rw [hend] at hafter'
      have hk := linked_of_room hsplit hbehind hq.num ht hbefore' hm' ⟨hsame, hlt', hafter', htotal'',
        hcovered'⟩
      exact ⟨_, hq.link ha hfits hk rfl, fun x hx hx' => (hk.covered x).2 (.inr ⟨hx, hx'⟩)⟩

lemma trimmed_start {p : ℕ} (hlo : first ≤ p + 0x80000000) (hhi : p < first + 0x80000000) :
    (if Sequence.lt (seqAt initial p) (seqAt initial first) then seqAt initial first
      else seqAt initial p) = seqAt initial (max p first) := by
  rw [lt_seqAt (by omega) (by omega)]
  by_cases hlt : p < first
  · simp [hlt, Nat.max_eq_right hlt.le]
  · simp [hlt, Nat.max_eq_left (Nat.le_of_not_lt hlt)]

lemma Holds.fits {p stop : ℕ} (hq : Holds stream initial q first l last)
    (hlo : first ≤ p + 0x80000000) (hp : p < stop) (hstop : first < stop)
    (hhi : stop < first + 0x80000000)
    (hstraddles : q.straddles (buffered stream initial (p, stop)) = false) :
    Fits first l (max p first, stop) := by
  intro b hb hstart hend
  have hbmem : b ∈ l := by
    rcases hq.spans.lastFree_spec with ⟨hnone, -⟩ | ⟨c, hc, hsome, -⟩
    · rw [hnone] at hb
      cases hb
    · rw [hsome] at hb
      cases hb
      exact hc
  obtain ⟨hbge, hblt, hbnear⟩ := hq.near_of_mem hbmem
  have hgt : Sequence.gt (seqAt initial stop) (seqAt initial first) = true := by
    rw [gt_seqAt (by omega) (by omega)]
    simpa using hstop
  have hle :
    Sequence.le (seqAt initial (max p first)) (buffered stream initial b).sequence = true := by
    rw [buffered, le_seqAt (by omega) (by omega)]
    simpa using hstart
  have hbehind : Sequence.gt (seqAt initial stop) (buffered stream initial b).stop = true := by
    rw [stop_buffered hblt.le, gt_seqAt (by omega) (by omega)]
    simpa using hend
  have hsegment : (buffered stream initial (p, stop)).stop = seqAt initial stop :=
    stop_buffered hp.le
  have hstart' : (if Sequence.lt (buffered stream initial (p, stop)).sequence (seqAt initial first)
      then seqAt initial first else (buffered stream initial (p, stop)).sequence) =
      seqAt initial (max p first) := trimmed_start hlo (by omega)
  rw [BufferQueue.straddles, hq.firstSeq, hq.list, hsegment, hstart',
    lastContiguous_buffered hq.spans hq.near, hb,
    hasHoleBehind_buffered hq.spans le_rfl hq.near hstop.le hhi] at hstraddles
  simpa [hgt, hle, hbehind] using hstraddles

lemma Holds.add {p stop : ℕ} (hq : Holds stream initial q first l last) (hlt : p < stop)
    (hlo : first ≤ p + 0x80000000) (hhi : stop ≤ first + 0x80000000)
    (hstraddles : q.straddles (buffered stream initial (p, stop)) = false) :
    ∃ l' last', Holds stream initial (q.add (slice stream p stop) (seqAt initial p)) first l'
      last' ∧ last ≤ last' ∧ last' ≤ max last stop ∧
      (stop < first + 0x80000000 → ∀ x, first ≤ x → p ≤ x → x < stop → InSpans l' x) := by
  have hbuffer : (⟨seqAt initial p, slice stream p stop⟩ : NetBuffer α) =
      buffered stream initial (p, stop) := rfl
  have hstop : (buffered stream initial (p, stop)).stop = seqAt initial stop :=
    stop_buffered hlt.le
  have hsize : (buffered stream initial (p, stop)).size ≠ 0 := by
    rw [size_buffered]
    simp
    omega
  rw [BufferQueue.add, hbuffer, hstop, hq.firstSeq]
  by_cases hold : Sequence.le (seqAt initial stop) (seqAt initial first) = true
  · -- no data of interest
    simp only [hold, true_or, if_true]
    refine ⟨l, last, hq, le_rfl, Nat.le_max_left _ _, fun hnear x hx _ hx' => ?_⟩
    rw [le_seqAt (by omega) (by omega), decide_eq_true_eq] at hold
    omega
  have hfar : stop ≠ first + 0x80000000 := fun he => hold (he ▸ le_seqAt_far)
  have hnew : first < stop := by
    rw [le_seqAt (by omega) (by omega)] at hold
    simpa using hold
  have hfits := hq.fits hlo hlt hnew (by omega) hstraddles
  have ha : Near first (max p first, stop) :=
    ⟨Nat.le_max_right _ _, Nat.max_lt.2 ⟨hlt, hnew⟩, by simp; omega⟩
  have htrim : (if Sequence.lt (seqAt initial p) (seqAt initial first) then
      (buffered stream initial (p, stop)).removeHeader
        (seqAt initial first - seqAt initial p).toNat (seqAt initial first)
      else buffered stream initial (p, stop)) = buffered stream initial (max p first, stop) := by
    rw [lt_seqAt (by omega) (by omega)]
    by_cases hbefore : p < first
    · have hbytes : (seqAt initial first - seqAt initial p).toNat = first - p :=
        toNat_seqAt_sub hbefore.le (by omega)
      simp only [hbefore, decide_true, if_true, hbytes, Nat.max_eq_right hbefore.le]
      exact removeHeader_buffered hbefore.le
    · simp [hbefore, Nat.max_eq_left (Nat.le_of_not_lt hbefore)]
  have hnear := hq.near
  have hle := hq.spans.le
  have hge : Sequence.ge (buffered stream initial (max p first, stop)).sequence q.lastSequence =
      decide (max p first ≥ last) := by
    rw [hq.lastSeq]
    exact ge_seqAt (by omega) (by omega)
  simp only [hold, hsize, or_self, Bool.false_eq_true, if_false, htrim, hge, decide_eq_true_eq]
  split
  · rename_i hend
    have hbehind : last ≤ max p first := by
      rcases hend with hempty | hend
      · rw [hq.list, List.map_eq_nil_iff] at hempty
        have hspans := hq.spans
        rw [hempty] at hspans
        have : last = first := hspans
        omega
      · exact hend
    refine ⟨_, _, hq.append ha hbehind, hbehind.trans ha.lt.le, Nat.le_max_right _ _, ?_⟩
    intro _ x hx hx' hlt
    exact inSpans_append.2 (.inr (inSpans_cons.2 (.inl ⟨Nat.max_le.2 ⟨hx', hx⟩, hlt⟩)))
  · rename_i hend
    obtain ⟨l', hl', hcovered⟩ := hq.insert ha hfits (by
      have := not_or.1 hend
      simpa using this.2)
    exact ⟨l', _, hl', Nat.le_max_left _ _, le_rfl,
      fun _ x hx hx' => hcovered x (Nat.max_le.2 ⟨hx', hx⟩)⟩

/-! ## Handing out bytes -/

lemma takeBytes_buffered {lo hi n : ℕ} (hl : Spans lo l hi) (hn : lo + n ≤ gapFree lo l) :
    ∃ l', BufferQueue.takeBytes n (l.map (buffered stream initial)) =
        (slice stream lo (lo + n), l'.map (buffered stream initial)) ∧
      Spans (lo + n) l' hi ∧ total l' + n = total l ∧ gapFree (lo + n) l' = gapFree lo l := by
  induction l generalizing lo n with
  | nil =>
    have hzero : n = 0 := by
      rw [gapFree] at hn
      omega
    subst hzero
    exact ⟨[], by simp [BufferQueue.takeBytes, slice], hl, rfl, rfl⟩
  | cons p l ih =>
    obtain ⟨hlo, hlt, hrest⟩ := hl
    by_cases hzero : n = 0
    · subst hzero
      exact ⟨p :: l, by simp [BufferQueue.takeBytes, slice], ⟨hlo, hlt, hrest⟩, rfl, rfl⟩
    have hstart : p.1 = lo := by
      by_contra hne
      rw [gapFree, if_neg hne] at hn
      omega
    subst hstart
    rw [gapFree, if_pos rfl] at hn
    have hbytes : p.2 - p.1 ≤ n → p.1 + n = p.2 + (n - (p.2 - p.1)) := fun _ => by omega
    by_cases hwhole : p.2 - p.1 ≤ n
    · -- the first buffer is used up
      obtain ⟨l', htake, hspans, htotal, hfree⟩ :=
        ih (n := n - (p.2 - p.1)) hrest (by omega)
      rw [← hbytes hwhole] at htake hspans hfree
      refine ⟨l', ?_, hspans, by rw [total]; omega, by rw [hfree, gapFree, if_pos rfl]⟩
      have hdata : (buffered stream initial p).data ++ slice stream p.2 (p.1 + n) =
          slice stream p.1 (p.1 + n) := slice_append hlt.le (by omega)
      simp only [List.map_cons, BufferQueue.takeBytes, hzero, if_false, size_buffered,
        Nat.min_eq_left hwhole, if_true, htake, hdata]
    · have hmin : min (p.2 - p.1) n = n := by omega
      have hne : n ≠ p.2 - p.1 := by omega
      refine ⟨(p.1 + n, p.2) :: l, ?_, ⟨le_rfl, by simp; omega, hrest⟩, ?_, ?_⟩
      · have hdata : (buffered stream initial p).data.take n = slice stream p.1 (p.1 + n) :=
          take_slice (by omega)
        have hheader : (buffered stream initial p).removeHeader n
            ((buffered stream initial p).sequence + BitVec.ofNat 32 n) =
              buffered stream initial (p.1 + n, p.2) := by
          have hremoved : (buffered stream initial p).removeHeader (p.1 + n - p.1)
              (seqAt initial (p.1 + n)) = buffered stream initial (p.1 + n, p.2) :=
            removeHeader_buffered (Nat.le_add_right _ _)
          rw [Nat.add_sub_cancel_left] at hremoved
          rw [buffered, seqAt_add]
          exact hremoved
        simp only [List.map_cons, BufferQueue.takeBytes, hzero, if_false, size_buffered, hmin, hne,
          hdata, hheader]
      · simp only [total]
        omega
      · simp [gapFree]

lemma takeFrom_eq (list : List (NetBuffer α)) {bytes : ℕ} (hpos : bytes ≠ 0) :
    BufferQueue.takeFrom bytes list = BufferQueue.takeBytes bytes list := by
  cases list with
  | nil => rfl
  | cons buffer list =>
    rw [BufferQueue.takeFrom]
    split
    · rfl
    · rename_i hle
      have hmin : min buffer.size bytes = buffer.size := by omega
      simp [BufferQueue.takeBytes, hpos, hmin]

lemma Holds.get (hq : Holds stream initial q first l last) (bytes : ℕ) :
    ∃ n l', n = min bytes q.contiguousBytes ∧
      (q.get bytes true).2 = slice stream first (first + n) ∧
      Holds stream initial (q.get bytes true).1 (first + n) l' last := by
  have hbounds := hq.spans.gapFree_bounds
  have hnear := hq.near
  rw [BufferQueue.get]
  generalize hn : min bytes q.contiguousBytes = n
  have hle : first + n ≤ gapFree first l := by
    have := hq.contiguous
    omega
  by_cases hzero : n = 0
  · subst hzero
    exact ⟨0, l, rfl, by simp [slice], hq⟩
  obtain ⟨l', htake, hspans, htotal, hfree⟩ :=
    @takeBytes_buffered _ stream initial _ _ _ _ hq.spans hle
  have hr : BufferQueue.takeFrom n q.list =
      (slice stream first (first + n), l'.map (buffered stream initial)) := by
    rw [takeFrom_eq _ hzero, hq.list]
    exact htake
  have hlen : (slice stream first (first + n)).length = n := by
    rw [length_slice]
    omega
  simp only [hzero, if_false, if_true, hr, hlen]
  refine ⟨n, l', rfl, rfl, rfl, hspans, by omega, ?_, hq.lastSeq, ?_, ?_⟩
  · rw [hq.firstSeq]
    exact seqAt_add
  · show q.numBytes - n = total l'
    have := hq.num
    omega
  · show q.contiguousBytes - n = _
    have := hq.contiguous
    omega

lemma get_clone (q : BufferQueue α) (bytes : ℕ) : (q.get bytes false).1 = q := by
  rw [BufferQueue.get]
  split <;> rfl

/-! ## How far the stream has arrived -/

lemma BufferQueue.le_connect {first : Sequence} {list : List (NetBuffer α)} :
    n ≤ connect first n list := by
  induction list generalizing n with
  | nil => exact le_rfl
  | cons buffer list ih =>
    rw [connect]
    split
    · exact (Nat.le_add_right _ _).trans ih
    · exact le_rfl

/-- The number of bytes in the gap-free prefix only drops where the queue is found to have no gap. -/
lemma BufferQueue.contiguousBytes_add (q : BufferQueue α) (data : List α) (sequence : Sequence) :
    q.contiguousBytes ≤ (q.add data sequence).contiguousBytes ∨
      (q.add data sequence).lastSequence - (q.add data sequence).firstSequence =
        BitVec.ofNat 32 (q.add data sequence).numBytes := by
  unfold add
  dsimp only
  split
  · exact .inl le_rfl
  generalize (if sequence.lt q.firstSequence = true then _ else NetBuffer.mk sequence data) = buffer
  split
  · unfold append
    dsimp only
    split
    · exact .inl (Nat.le_add_right _ _)
    · exact .inl le_rfl
  unfold insert
  dsimp only
  generalize (if q.lastSequence.lt buffer.stop = true then _ else q.lastSequence) = last
  split
  · exact .inl le_rfl
  split
  · exact .inl le_rfl
  unfold link
  dsimp only
  split
  · exact .inr ‹_›
  split
  · exact .inl le_connect
  · exact .inl le_rfl

lemma BufferQueue.add_nil (q : BufferQueue α) (sequence : Sequence) : q.add [] sequence = q := by
  simp [add, NetBuffer.size]

lemma BufferQueue.contiguousBytes_get (q : BufferQueue α) (bytes : ℕ) :
    (q.get bytes true).1.contiguousBytes = q.contiguousBytes - (q.get bytes true).2.length := by
  unfold get
  dsimp only
  split <;> rfl

/-- How far the stream has arrived without a hole -/
def Receiver.received (s : Receiver α) : ℕ := s.taken.length + s.queue.contiguousBytes

namespace Receiver

variable {s s' : Receiver α} {m p : ℕ}

/-- The receiver has bytes of the stream, and none from `m` on. -/
structure Within (stream : ℕ → α) (initial : Sequence) (m : ℕ) (s : Receiver α) : Prop where
  taken : s.taken = slice stream 0 s.taken.length
  queue : ∃ l last, Holds stream initial s.queue s.taken.length l last ∧ last ≤ m

lemma within_init : (init initial : Receiver α).Within stream initial 0 := by
  have hzero : initial = seqAt initial 0 := by simp [seqAt]
  exact ⟨rfl, [], 0, ⟨rfl, rfl, by simp [init], hzero, hzero, rfl, rfl⟩, le_rfl⟩

section

variable (h : s.Within stream initial m)
include h

lemma Within.mono (hm : m ≤ n) : s.Within stream initial n := by
  obtain ⟨htaken, l, last, hq, hlast⟩ := h
  exact ⟨htaken, l, last, hq, hlast.trans hm⟩

lemma Within.received_le : s.received ≤ m := by
  obtain ⟨-, l, last, hq, hlast⟩ := h
  have hbounds := hq.spans.gapFree_bounds
  have hcontiguous := hq.contiguous
  rw [received]
  omega

lemma Within.add (segment : NetBuffer α) (hsequence : segment.sequence = seqAt initial p)
    (hdata : segment.data = slice stream p (p + segment.size)) (hm : p + segment.size ≤ m)
    (hlo : s.taken.length ≤ p + 0x80000000) (hhi : p + segment.size ≤ s.taken.length + 0x80000000)
    (haligned : Aligned s (.add segment.data segment.sequence))
    (hs : TCP.step s (.add segment.data segment.sequence) = some s') :
    s'.Within stream initial m ∧ s.received ≤ s'.received ∧
      (p ≤ s.received → p + segment.size < s.taken.length + 0x80000000 →
        p + segment.size ≤ s'.received) := by
  obtain ⟨htaken, l, last, hq, hlast⟩ := h
  obtain ⟨sequence, data⟩ := segment
  dsimp only [NetBuffer.size] at hsequence hdata hm hhi haligned hs
  cases hs
  by_cases hnil : data = []
  · rw [hnil, BufferQueue.add_nil]
    exact ⟨⟨htaken, l, last, hq, hlast⟩, le_rfl, fun hle _ => hle⟩
  have hlen : 0 < data.length := List.length_pos_iff.2 hnil
  have hstraddles := haligned.resolve_left hnil
  have hsegment : (⟨sequence, data⟩ : NetBuffer α) = buffered stream initial (p, p + data.length) := by
    rw [buffered, ← hdata, ← hsequence]
  rw [hsegment] at hstraddles
  obtain ⟨l', last', hq', hge, hle, hcovered⟩ := hq.add (by omega) hlo hhi hstraddles
  rw [← hdata, ← hsequence] at hq'
  have hmore : s.queue.contiguousBytes ≤ (s.queue.add data sequence).contiguousBytes := by
    rcases s.queue.contiguousBytes_add data sequence with hmore | hfilled
    · exact hmore
    · rw [hq'.lastSeq, hq'.firstSeq, filled_iff hq'.spans hq'.near hq'.num] at hfilled
      have hbounds := hq.spans.gapFree_bounds
      rw [hq.contiguous, hq'.contiguous]
      omega
  refine ⟨⟨htaken, l', last', hq', by omega⟩, Nat.add_le_add_left hmore _, fun hstart hnear => ?_⟩
  -- the segment covers the end of the prefix, unless the prefix reaches beyond it
  by_contra hend
  have hbounds := hq'.spans.gapFree_bounds
  have hcontiguous := hq'.contiguous
  dsimp only [received, NetBuffer.size] at hstart hend hnear
  exact hq'.spans.not_covered_gapFree (hcovered hnear _ hbounds.1 (by omega) (by omega))

/-- All bytes without a hole are read. -/
lemma Within.readAll (hs : TCP.step s (.get s.queue.contiguousBytes true) = some s') :
    s'.taken.length = s.received ∧ s'.queue.contiguousBytes = 0 := by
  obtain ⟨-, l, last, hq, -⟩ := h
  cases hs
  obtain ⟨n, l', hn, hdata, -⟩ := hq.get s.queue.contiguousBytes
  have hlen : (s.queue.get s.queue.contiguousBytes true).2.length = s.queue.contiguousBytes := by
    rw [hdata, length_slice, hn]
    omega
  constructor
  · show (s.taken ++ (s.queue.get s.queue.contiguousBytes true).2).length = _
    rw [List.length_append, hlen]
    rfl
  · show (s.queue.get s.queue.contiguousBytes true).1.contiguousBytes = 0
    rw [BufferQueue.contiguousBytes_get, hlen, Nat.sub_self]

lemma Within.aligned (hempty : s.queue.contiguousBytes = 0) (data : List α) (sequence : Sequence) :
    Aligned s (.add data sequence) := by
  obtain ⟨-, l, last, hq, -⟩ := h
  have hbounds := hq.spans.gapFree_bounds
  have hcontiguous := hq.contiguous
  have hnone : lastContiguous s.queue.firstSequence s.queue.list = none := by
    rw [hq.firstSeq, hq.list, lastContiguous_buffered hq.spans hq.near]
    rcases hq.spans.lastFree_spec with ⟨hnone, -⟩ | ⟨b, hb, -, hend⟩
    · rw [hnone]
      rfl
    · have := hq.spans.start_ge hb
      omega
  right
  simp [BufferQueue.straddles, hnone]

lemma Within.get {bytes : ℕ} {remove : Bool} (hs : TCP.step s (.get bytes remove) = some s') :
    s'.Within stream initial m ∧ s.received ≤ s'.received := by
  obtain ⟨htaken, l, last, hq, hlast⟩ := h
  cases hs
  cases remove with
  | false =>
    rw [get_clone]
    exact ⟨⟨htaken, l, last, hq, hlast⟩, le_rfl⟩
  | true =>
    obtain ⟨n, l', -, hdata, hq'⟩ := hq.get bytes
    have htaken' : s.taken ++ (s.queue.get bytes true).2 = slice stream 0 (s.taken.length + n) := by
      rw [hdata]
      nth_rewrite 1 [htaken]
      exact slice_append (Nat.zero_le _) (Nat.le_add_right _ _)
    have hlen : (s.taken ++ (s.queue.get bytes true).2).length = s.taken.length + n := by
      rw [htaken', length_slice]
      rfl
    simp only [if_true]
    refine ⟨⟨by rw [hlen]; exact htaken', l', last, by rw [hlen]; exact hq', hlast⟩, ?_⟩
    show s.taken.length + s.queue.contiguousBytes ≤
      (s.taken ++ (s.queue.get bytes true).2).length + (s.queue.get bytes true).1.contiguousBytes
    have hkept := s.queue.contiguousBytes_get bytes
    rw [List.length_append]
    omega

end

end Receiver

/-! ## Runs -/

def Receiver.Inv (stream : ℕ → α) (initial : Sequence) (s : Receiver α) : Prop :=
  s.taken = slice stream 0 s.taken.length ∧
    ∃ l last, Holds stream initial s.queue s.taken.length l last

variable {s s' : Receiver α} {act : Action α}

lemma inv_init : (Receiver.init initial : Receiver α).Inv stream initial := by
  obtain ⟨htaken, l, last, hq, -⟩ := Receiver.within_init
  exact ⟨htaken, l, last, hq⟩

lemma inv_step (hi : s.Inv stream initial) (hsends : Sends stream initial s act)
    (haligned : Aligned s act) (hs : step s act = some s') : s'.Inv stream initial := by
  obtain ⟨htaken, l, last, hq⟩ := hi
  cases act with
  | add data sequence =>
    rcases hsends with rfl | ⟨p, hsequence, hdata, hlo, hhi⟩
    · cases hs
      rw [BufferQueue.add_nil]
      exact ⟨htaken, l, last, hq⟩
    · have hw : s.Within stream initial (max last (p + data.length)) :=
        ⟨htaken, l, last, hq, Nat.le_max_left _ _⟩
      obtain ⟨⟨htaken', l', last', hq', -⟩, -⟩ := hw.add ⟨sequence, data⟩ hsequence hdata
        (Nat.le_max_right _ _) hlo hhi haligned hs
      exact ⟨htaken', l', last', hq'⟩
  | get bytes remove =>
    have hw : s.Within stream initial last := ⟨htaken, l, last, hq, le_rfl⟩
    obtain ⟨⟨htaken', l', last', hq', -⟩, -⟩ := hw.get hs
    exact ⟨htaken', l', last', hq'⟩

/-- In every run in which the segments carry the bytes of the stream, and none of them straddles the
end of the gap-free prefix, the receiver reassembles the stream. -/
theorem receiver_reassembles {hist : History (Receiver α) (Action α)}
    (hr : Run step (fun s a => Sends stream initial s a ∧ Aligned s a) (.init initial) hist s) :
    Reassembles stream initial s := by
  have hi : s.Inv stream initial := hr.invariant (I := Receiver.Inv stream initial) inv_init
    fun hi hok hs => inv_step hi hok.1 hok.2 hs
  obtain ⟨htaken, l, last, hq⟩ := hi
  exact ⟨htaken, hq.firstSeq, l, last, hq.list, hq.spans, hq.lastSeq, hq.num, hq.contiguous⟩

/-- Whether the bytes are those of the stream of natural numbers, by evaluation. -/
def sendsNumbers (initial : Sequence) (s : Receiver ℕ) : Action ℕ → Bool
  | .add data sequence =>
    match data with
    | [] => true
    | p :: _ => decide (sequence = seqAt initial p ∧ data = slice id p (p + data.length) ∧
        s.taken.length ≤ p + 0x80000000 ∧ p + data.length ≤ s.taken.length + 0x80000000)
  | .get _ _ => true

lemma sendsNumbers_of (initial : Sequence) (s : Receiver ℕ) (a : Action ℕ)
    (h : sendsNumbers initial s a = true) : Sends id initial s a := by
  cases a with
  | get bytes remove => trivial
  | add data sequence =>
    cases data with
    | nil => exact .inl rfl
    | cons p data => exact .inr ⟨p, of_decide_eq_true h⟩

def alignedCheck (s : Receiver ℕ) : Action ℕ → Bool
  | .add data sequence => data.isEmpty || !s.queue.straddles ⟨sequence, data⟩
  | .get _ _ => true

lemma alignedNumbers_of (initial : Sequence) (s : Receiver ℕ) (a : Action ℕ)
    (h : (sendsNumbers initial s a && alignedCheck s a) = true) :
    Sends id initial s a ∧ Aligned s a := by
  rw [Bool.and_eq_true] at h
  refine ⟨sendsNumbers_of initial s a h.1, ?_⟩
  cases a with
  | get bytes remove => trivial
  | add data sequence => simpa [alignedCheck, Aligned] using h.2

/-- Segments that arrive in the wrong order and overlap, around the wrap of the numbers. -/
theorem receiver_reassembles_wrapped :
    let s := outcome step (Receiver.init 0xfffffffe : Receiver ℕ)
      [.add [3, 4] 1, .add [0, 1] 0xfffffffe, .add [1, 2, 3] 0xffffffff, .get 3 true,
        .add [2, 3, 4, 5] 0]
    s.taken = [0, 1, 2] ∧ s.queue.contiguousBytes = 3 ∧ Reassembles id 0xfffffffe s := by
  refine ⟨by decide, by decide, ?_⟩
  obtain ⟨hist, hr, -⟩ := run_outcome step (alignedNumbers_of 0xfffffffe)
    (Receiver.init 0xfffffffe : Receiver ℕ)
    [.add [3, 4] 1, .add [0, 1] 0xfffffffe, .add [1, 2, 3] 0xffffffff, .get 3 true,
      .add [2, 3, 4, 5] 0] (fun _ => true) (by decide)
  exact receiver_reassembles hr

/-- A longer segment takes the place of the only contiguous one, in front of a hole: its additional
byte is not counted as contiguous. -/
theorem receiver_miscounts :
    ¬ ∀ (hist : History (Receiver ℕ) (Action ℕ)) (s : Receiver ℕ),
      Run step (Sends id 0) (.init 0) hist s → Reassembles id 0 s := by
  intro hall
  obtain ⟨hist, hr, -⟩ := run_outcome step (sendsNumbers_of 0) (Receiver.init 0 : Receiver ℕ)
    [.add [0] 0, .add [3] 3, .add [0, 1] 0] (fun _ => true) (by decide)
  obtain ⟨-, -, l, last, hlist, hspans, -, -, hcontiguous⟩ := hall _ _ hr
  have hlist' : l.map (buffered id 0) = [⟨0, [0, 1]⟩, ⟨3, [3]⟩] := by
    rw [← hlist]
    decide
  have hcount : (outcome step (Receiver.init 0 : Receiver ℕ)
      [.add [0] 0, .add [3] 3, .add [0, 1] 0]).queue.contiguousBytes = 1 := by
    decide
  have htaken : (outcome step (Receiver.init 0 : Receiver ℕ)
      [.add [0] 0, .add [3] 3, .add [0, 1] 0]).taken.length = 0 := by
    decide
  rw [hcount, htaken] at hcontiguous
  -- the buffers tell which spans they carry
  have hlength : l.length = 2 := by simpa using congrArg List.length hlist'
  obtain ⟨a, b, rfl⟩ := List.length_eq_two.1 hlength
  simp only [List.map_cons, List.map_nil, List.cons.injEq, buffered, NetBuffer.mk.injEq, slice,
    List.map_id, and_true] at hlist'
  obtain ⟨⟨-, ha⟩, -, hb⟩ := hlist'
  have hlen : a.2 - a.1 = 2 := by simpa using congrArg List.length ha
  have hlen' : b.2 - b.1 = 1 := by simpa using congrArg List.length hb
  rw [hlen] at ha
  rw [hlen'] at hb
  have ha₁ : a.1 = 0 := (List.cons.inj ha).1
  have hb₁ : b.1 = 3 := (List.cons.inj hb).1
  simp only [gapFree, ha₁, if_true, hb₁] at hcontiguous
  split at hcontiguous <;> omega

end Haiku.TCP
