import Haiku.Lib.Enrolled
import Haiku.Unix.Fifo

/-!
# The fifo does not get stuck

A thread at the head of its queue that can transfer bytes has a pending notification. Every exit
from `Read()` and `Write()` notifies those who may go on, but a writer that has filled the buffer
and waits for more space does not notify the readers.
-/

namespace Haiku.Unix

open Function Lib

variable {T A : Type}

/-! ## Transfers -/

structure Taken (q q' : UnixBufferQueue A) (r r' : ReadRequest A) : Prop where
  capacity : q'.fCapacity = q.fCapacity
  moved : q'.readable + r'.fBytesTransferred = q.readable + r.fBytesTransferred
  grows : r.fBytesTransferred ≤ r'.fBytesTransferred

lemma read_taken (vecs : List ℕ) (copies : Option ℕ) (q : UnixBufferQueue A)
    (r : ReadRequest A) : Taken q (q.read r vecs copies).2.1 r (q.read r vecs copies).2.2 := by
  induction vecs generalizing q r copies with
  | nil => exact ⟨rfl, rfl, Nat.le_refl _⟩
  | cons size vecs ih =>
    unfold UnixBufferQueue.read
    dsimp only
    split_ifs with hsize hempty hfault hpart
    · exact ih copies q r
    · exact ⟨rfl, rfl, Nat.le_refl _⟩
    · exact ⟨rfl, rfl, Nat.le_refl _⟩
    · have hreadable : (q.fBuffer.drop (min size q.readable)).length + min size q.readable =
          q.readable := by
        rw [List.length_drop]
        exact Nat.sub_add_cancel (Nat.min_le_right _ _)
      refine ⟨rfl, ?_, Nat.le_add_right _ _⟩
      show (q.fBuffer.drop (min size q.readable)).length +
        (r.fBytesTransferred + min size q.readable) = _
      omega
    · have hreadable : (q.fBuffer.drop (min size q.readable)).length + min size q.readable =
          q.readable := by
        rw [List.length_drop]
        exact Nat.sub_add_cancel (Nat.min_le_right _ _)
      have hnext := ih (copies.map (· - 1)) (q.readBytes r (min size q.readable)).1
        (q.readBytes r (min size q.readable)).2
      have hmoved := hnext.moved
      have hgrows : r.fBytesTransferred + min size q.readable ≤ _ := hnext.grows
      refine ⟨hnext.capacity, ?_, ?_⟩
      · rw [hmoved]
        show (q.fBuffer.drop (min size q.readable)).length +
          (r.fBytesTransferred + min size q.readable) = _
        omega
      · exact Nat.le_trans (Nat.le_add_right _ _) hgrows

def bytesOf (vecs : List (List Byte)) : ℕ := (vecs.map List.length).sum

/-- How many bytes of the vectors can be copied before a fault -/
def reach : List (List Byte) → Option ℕ → ℕ
  | [], _ => 0
  | vec :: vecs, copies =>
    if vec.length = 0 then reach vecs copies
    else if copies = some 0 then 0
    else vec.length + reach vecs (copies.map (· - 1))

/-- What a transfer of the vectors `vecs` into the buffer does to the counts -/
structure Put (q q' : UnixBufferQueue A) (vecs : List (List Byte)) (r r' : WriteRequest A)
    (copies : Option ℕ) (status : Status) : Prop where
  capacity : q'.fCapacity = q.fCapacity
  total : r'.fTotalSize = r.fTotalSize
  moved : q'.readable + r.fBytesTransferred = q.readable + r'.fBytesTransferred
  grows : r.fBytesTransferred ≤ r'.fBytesTransferred
  rest : r'.fBytesTransferred + bytesOf r'.vecs = r.fBytesTransferred + bytesOf vecs
  fits : q.readable ≤ q.fCapacity → q'.readable ≤ q.fCapacity
  most : status = .ok → r'.fBytesTransferred = r.fBytesTransferred + min q.writable (bytesOf vecs) ∧
    min q.writable (bytesOf vecs) ≤ reach vecs copies

lemma writeVecs_put (vecs : List (List Byte)) (copies : Option ℕ) (q : UnixBufferQueue A)
    (r : WriteRequest A) : Put q (q.writeVecs r vecs copies).2.1 vecs r
      (q.writeVecs r vecs copies).2.2 copies (q.writeVecs r vecs copies).1 := by
  induction vecs generalizing q r copies with
  | nil =>
    refine ⟨rfl, rfl, rfl, Nat.le_refl _, rfl, id, fun _ => ⟨?_, ?_⟩⟩
    · show r.fBytesTransferred = r.fBytesTransferred + min q.writable 0
      omega
    · exact Nat.min_le_right _ _
  | cons vec vecs ih =>
    have hbytes : bytesOf (vec :: vecs) = vec.length + bytesOf vecs := rfl
    have hwritable : q.writable = q.fCapacity - q.readable := rfl
    have hreach : reach (vec :: vecs) copies = if vec.length = 0 then reach vecs copies
      else if copies = some 0 then 0 else vec.length + reach vecs (copies.map (· - 1)) := rfl
    unfold UnixBufferQueue.writeVecs
    dsimp only
    split_ifs with hsize hfull hfault hpart
    · -- an empty vector is passed over
      have hnext := ih copies q r
      have hsame : bytesOf (vec :: vecs) = bytesOf vecs := by omega
      rw [if_pos hsize] at hreach
      refine ⟨hnext.capacity, hnext.total, hnext.moved, hnext.grows, ?_, hnext.fits, ?_⟩
      · rw [hsame]
        exact hnext.rest
      · rw [hsame, hreach]
        exact hnext.most
    · refine ⟨rfl, rfl, rfl, Nat.le_refl _, rfl, id, fun _ => ⟨?_, by omega⟩⟩
      show r.fBytesTransferred = r.fBytesTransferred + min q.writable (bytesOf (vec :: vecs))
      omega
    · exact ⟨rfl, rfl, rfl, Nat.le_refl _, rfl, id, nofun⟩
    · -- the vector fills the buffer
      rw [if_neg hsize, if_neg hfault] at hreach
      have htaken : (vec.take (min vec.length q.writable)).length = q.writable := by
        rw [List.length_take]
        omega
      have hleft : bytesOf (vec.drop (min vec.length q.writable) :: vecs) + q.writable =
          bytesOf (vec :: vecs) := by
        show (vec.drop (min vec.length q.writable)).length + bytesOf vecs + q.writable = _
        rw [List.length_drop]
        omega
      have hreadable : (q.fBuffer ++ vec.take (min vec.length q.writable)).length =
          q.readable + q.writable := by
        rw [List.length_append, htaken]
        rfl
      refine ⟨rfl, rfl, ?_, Nat.le_add_right _ _, ?_, ?_, fun _ => ⟨?_, ?_⟩⟩
      · show (q.fBuffer ++ vec.take (min vec.length q.writable)).length + r.fBytesTransferred =
          q.readable + (r.fBytesTransferred + (vec.take (min vec.length q.writable)).length)
        omega
      · show r.fBytesTransferred + (vec.take (min vec.length q.writable)).length +
          bytesOf (vec.drop (min vec.length q.writable) :: vecs) = _
        omega
      · intro hfits
        show (q.fBuffer ++ vec.take (min vec.length q.writable)).length ≤ _
        omega
      · show r.fBytesTransferred + (vec.take (min vec.length q.writable)).length = _
        omega
      · omega
    · -- the whole vector is copied
      rw [if_neg hsize, if_neg hfault] at hreach
      have htaken : (vec.take (min vec.length q.writable)).length = vec.length := by
        rw [List.length_take]
        omega
      have hreadable : (q.fBuffer ++ vec.take (min vec.length q.writable)).length =
          q.readable + vec.length := by
        rw [List.length_append, htaken]
        rfl
      set q₁ := (q.writeBytes r (vec.take (min vec.length q.writable))).1
      set r₁ := (q.writeBytes r (vec.take (min vec.length q.writable))).2
      have hcount : r₁.fBytesTransferred = r.fBytesTransferred + vec.length := by
        show r.fBytesTransferred + (vec.take (min vec.length q.writable)).length = _
        rw [htaken]
      have hsize₁ : q₁.readable = q.readable + vec.length := hreadable
      have hcap₁ : q₁.fCapacity = q.fCapacity := rfl
      have hwritable₁ : q₁.writable = q.writable - vec.length := by
        show q.fCapacity - q₁.readable = _
        rw [hsize₁, hwritable, Nat.sub_sub]
      have hnext := ih (copies.map (· - 1)) q₁ r₁
      have hmoved := hnext.moved
      have hgrows := hnext.grows
      have hrest := hnext.rest
      refine ⟨hnext.capacity, hnext.total, by omega, by omega, by omega, ?_, ?_⟩
      · intro hfits
        exact hnext.fits (by omega)
      · intro hok
        obtain ⟨hmost, hcopied⟩ := hnext.most hok
        exact ⟨by omega, by omega⟩

lemma write_put (q : UnixBufferQueue A) (r : WriteRequest A) (faults : Faults) :
    Put q (q.write r faults).2.1 r.vecs r (q.write r faults).2.2 faults.copies
      (q.write r faults).1 := by
  unfold UnixBufferQueue.write
  split_ifs with hmem
  · exact ⟨rfl, rfl, rfl, Nat.le_refl _, rfl, id, nofun⟩
  · exact writeVecs_put r.vecs faults.copies q r

variable {q : UnixBufferQueue A} {r : WriteRequest A}

lemma write_memory {faults : Faults} (h : (q.write r faults).1 = .ok) (hpos : 0 < q.writable) :
    ¬(r.fAncillaryData.isSome = true ∧ faults.noMemory = true) := by
  intro hmem
  unfold UnixBufferQueue.write at h
  rw [if_pos ⟨hpos, hmem⟩] at h
  cases h

/-! ## Notifications -/

def Thread.isReading : Thread A → Bool
  | .reading .. => true
  | _ => false

def Thread.isWriting : Thread A → Bool
  | .writing .. => true
  | _ => false

variable {x : Thread A}

lemma Thread.isWriting_of_isReading (h : x.isReading = true) : x.isWriting = false := by
  cases x with
  | reading => rfl
  | _ => cases h

lemma Thread.isReading_of_isWriting (h : x.isWriting = true) : x.isReading = false := by
  cases x with
  | writing => rfl
  | _ => cases h

def Thread.notified : Thread A → Bool
  | .reading _ _ _ notified => notified
  | .writing _ _ _ notified => notified
  | .outside .. => false

/-- A request's vectors hold the bytes that remain. -/
def Thread.counted : Thread A → Prop
  | .writing r .. => r.fTotalSize = r.fBytesTransferred + bytesOf r.vecs
  | _ => True

structure Heard (x y : Thread A) : Prop where
  reading : y.isReading = x.isReading
  writing : y.isWriting = x.isWriting
  notified : x.notified = true → y.notified = true
  counted : x.counted → y.counted

lemma Heard.refl (x : Thread A) : Heard x x := ⟨rfl, rfl, id, id⟩

lemma Heard.trans {y z : Thread A} (h : Heard x y) (h' : Heard y z) : Heard x z :=
  ⟨h'.reading.trans h.reading, h'.writing.trans h.writing, h'.notified ∘ h.notified,
    h'.counted ∘ h.counted⟩

lemma Heard.gone {y : Thread A} (h : Heard x y)
    (hx : x.isReading = false ∧ x.isWriting = false ∧ x.counted) :
    y.isReading = false ∧ y.isWriting = false ∧ y.counted :=
  ⟨h.reading.trans hx.1, h.writing.trans hx.2.1, h.counted hx.2.2⟩

lemma heard_notifyRead (x : Thread A) : Heard x x.notifyRead := by
  cases x with
  | reading => exact ⟨rfl, rfl, fun _ => rfl, id⟩
  | _ => exact .refl _

lemma heard_notifyWrite (x : Thread A) : Heard x x.notifyWrite := by
  cases x with
  | writing => exact ⟨rfl, rfl, fun _ => rfl, id⟩
  | _ => exact .refl _

lemma notified_notifyRead (h : x.isReading = true) : x.notifyRead.notified = true := by
  cases x with
  | reading => rfl
  | _ => cases h

lemma notified_notifyWrite (h : x.isWriting = true) : x.notifyWrite.notified = true := by
  cases x with
  | writing => rfl
  | _ => cases h

/-! ## The invariant -/

def UnixFifo.isOpen (s : UnixFifo T A) : Bool := !s.isReadShutdown && !s.isWriteShutdown

/-- The queues hold the threads that are in a call, and a head that can go on will do so. -/
structure UnixFifo.Inv (s : UnixFifo T A) : Prop where
  readers : Enrolled s.fReaders Thread.isReading s.threads
  writers : Enrolled s.fWriters Thread.isWriting s.threads
  counted : ∀ t, (s.threads t).counted
  reader : s.isOpen = true → 0 < s.fBuffer.readable → ∀ t, s.fReaders.head? = some t →
    (s.threads t).notified = true
  writer : s.isOpen = true → 0 < s.fBuffer.writable → ∀ t, s.fWriters.head? = some t →
    (s.threads t).notified = true

/-! ## The condition -/

/-- A transfer of what is left of a request fills the buffer and leaves a part of the request. -/
def UnixFifo.fills (s : UnixFifo T A) (r : WriteRequest A) (faults : Faults) : Prop :=
  0 < s.fBuffer.writable ∧ s.fBuffer.writable < r.bytesRemaining ∧
    s.fBuffer.writable ≤ reach r.vecs faults.copies ∧
    ¬(r.fAncillaryData.isSome = true ∧ faults.noMemory = true)

/-- The first reader, if there is one, has a pending notification. -/
def UnixFifo.readerReady (s : UnixFifo T A) : Prop :=
  ∀ t, s.fReaders.head? = some t → (s.threads t).notified = true

/-- The condition under which a section leaves no reader behind: a blocking writer at the head of
its queue that is about to fill the buffer and will have to wait finds no reader that waits without
a pending notification at the head of the other queue. -/
def Met (s : UnixFifo T A) : Action T A → Prop
  | .write _ vecs ancillaryData timeout faults => s.isOpen = true → s.fWriters = [] →
    timeout ≠ 0 → s.fills (.new vecs ancillaryData) faults → s.readerReady
  | .woken t .notified faults =>
    match s.threads t with
    | .writing r _ place true => s.isOpen = true →
      (place = .transfer ∨ s.fWriters.head? = some t) → s.fills r faults → s.readerReady
    | _ => True
  | _ => True

variable {s s' : UnixFifo T A} {t : T}

lemma UnixFifo.Inv.heard (hs : s.Inv) (hb : s'.fBuffer = s.fBuffer)
    (hr : s'.fReaders = s.fReaders) (hw : s'.fWriters = s.fWriters)
    (ho : s'.isOpen = true → s.isOpen = true)
    (ht : ∀ t, Heard (s.threads t) (s'.threads t)) : s'.Inv := by
  refine ⟨by rw [hr]; exact hs.readers.congr fun t => (ht t).reading,
    by rw [hw]; exact hs.writers.congr fun t => (ht t).writing,
    fun t => (ht t).counted (hs.counted t), fun hopen hpos t hhead => ?_,
    fun hopen hpos t hhead => ?_⟩
  · rw [hb] at hpos
    rw [hr] at hhead
    exact (ht t).notified (hs.reader (ho hopen) hpos t hhead)
  · rw [hb] at hpos
    rw [hw] at hhead
    exact (ht t).notified (hs.writer (ho hopen) hpos t hhead)

lemma UnixFifo.Inv.notMem_writers (hs : s.Inv) (ht : (s.threads t).isReading = true) :
    t ∉ s.fWriters := by
  exact hs.writers.notMem (Thread.isWriting_of_isReading ht)

lemma UnixFifo.Inv.notMem_readers (hs : s.Inv) (ht : (s.threads t).isWriting = true) :
    t ∉ s.fReaders := by
  exact hs.readers.notMem (Thread.isReading_of_isWriting ht)

variable [DecidableEq T]

/-! ## Leaving -/

def Thread.notifyReadIf (c : Bool) (x : Thread A) : Thread A := if c then x.notifyRead else x

def Thread.notifyWriteIf (c : Bool) (x : Thread A) : Thread A := if c then x.notifyWrite else x

lemma heard_notifyReadIf (c : Bool) (x : Thread A) : Heard x (x.notifyReadIf c) := by
  cases c with
  | true => exact heard_notifyRead x
  | false => exact .refl x

lemma heard_notifyWriteIf (c : Bool) (x : Thread A) : Heard x (x.notifyWriteIf c) := by
  cases c with
  | true => exact heard_notifyWrite x
  | false => exact .refl x

omit [DecidableEq T] in
lemma ite_notifyReaders (c : Bool) (s : UnixFifo T A) :
    (if c then s.notifyReaders else s) =
      { s with threads := fun t => (s.threads t).notifyReadIf c } := by
  cases c <;> rfl

omit [DecidableEq T] in
lemma ite_notifyWriters (c : Bool) (s : UnixFifo T A) :
    (if c then s.notifyWriters else s) =
      { s with threads := fun t => (s.threads t).notifyWriteIf c } := by
  cases c <;> rfl

structure ReaderLeft (s s' : UnixFifo T A) (t : T) (transferred : ℕ) : Prop where
  buffer : s'.fBuffer = s.fBuffer
  readers : s'.fReaders = s.fReaders.erase t
  writers : s'.fWriters = s.fWriters
  shutdown : s'.fShutdown = s.fShutdown
  self : (s'.threads t).isReading = false ∧ (s'.threads t).isWriting = false ∧
    (s'.threads t).counted
  others : ∀ t' ≠ t, Heard (s.threads t') (s'.threads t')
  next : s.fReaders.head? = some t → 0 < s.fBuffer.readable → s.isReadShutdown = false →
    ∀ t' ≠ t, t' ∈ s.fReaders → (s.threads t').isReading = true →
      (s'.threads t').notified = true
  space : 0 < transferred → s.isWriteShutdown = false →
    ∀ t' ≠ t, t' ∈ s.fWriters → (s.threads t').isWriting = true →
      (s'.threads t').notified = true

lemma finishRead_left (s : UnixFifo T A) (t : T) (r : ReadRequest A) (error : Status) :
    ReaderLeft s (s.finishRead t r error) t r.fBytesTransferred := by
  unfold UnixFifo.finishRead
  dsimp only
  rw [ite_notifyReaders, ite_notifyWriters]
  refine ⟨rfl, rfl, rfl, rfl, ?_, ?_, ?_, ?_⟩
  · dsimp only [UnixFifo.setThread]
    rw [update_self]
    exact Heard.gone ((heard_notifyReadIf _ _).trans (heard_notifyWriteIf _ _))
      ⟨rfl, rfl, trivial⟩
  · intro t' ht'
    dsimp only [UnixFifo.setThread]
    rw [update_of_ne ht']
    exact (heard_notifyReadIf _ _).trans (heard_notifyWriteIf _ _)
  · intro hhead hpos hopen t' ht' hmem hreading
    have hne : s.fReaders.erase t ≠ [] :=
      List.ne_nil_of_mem ((List.mem_erase_of_ne ht').2 hmem)
    dsimp only [UnixFifo.setThread]
    rw [update_of_ne ht']
    apply (heard_notifyWriteIf _ _).notified
    rw [decide_eq_true (⟨hhead, hne, hpos, by rw [hopen]; rfl⟩ : _ ∧ _)]
    exact notified_notifyRead hreading
  · intro hpos hopen t' ht' hmem hwriting
    dsimp only [UnixFifo.setThread]
    rw [update_of_ne ht',
      decide_eq_true (⟨hpos, List.ne_nil_of_mem hmem, by rw [hopen]; rfl⟩ : 0 < _ ∧ _)]
    apply notified_notifyWrite
    rw [(heard_notifyReadIf _ _).writing]
    exact hwriting

structure WriterLeft (s s' : UnixFifo T A) (t : T) (transferred : ℕ) : Prop where
  buffer : s'.fBuffer = s.fBuffer
  readers : s'.fReaders = s.fReaders
  writers : s'.fWriters = s.fWriters.erase t
  shutdown : s'.fShutdown = s.fShutdown
  self : (s'.threads t).isReading = false ∧ (s'.threads t).isWriting = false ∧
    (s'.threads t).counted
  others : ∀ t' ≠ t, Heard (s.threads t') (s'.threads t')
  next : s.fWriters.head? = some t → 0 < s.fBuffer.writable → s.isWriteShutdown = false →
    ∀ t' ≠ t, t' ∈ s.fWriters → (s.threads t').isWriting = true →
      (s'.threads t').notified = true
  data : 0 < transferred → s.isReadShutdown = false →
    ∀ t' ≠ t, t' ∈ s.fReaders → (s.threads t').isReading = true →
      (s'.threads t').notified = true

lemma finishWrite_left (s : UnixFifo T A) (t : T) (r : WriteRequest A) (error : Status) :
    WriterLeft s (s.finishWrite t r error) t r.fBytesTransferred := by
  unfold UnixFifo.finishWrite
  dsimp only
  rw [ite_notifyWriters, ite_notifyReaders]
  refine ⟨rfl, rfl, rfl, rfl, ?_, ?_, ?_, ?_⟩
  · dsimp only [UnixFifo.setThread]
    rw [update_self]
    exact Heard.gone ((heard_notifyWriteIf _ _).trans (heard_notifyReadIf _ _))
      ⟨rfl, rfl, trivial⟩
  · intro t' ht'
    dsimp only [UnixFifo.setThread]
    rw [update_of_ne ht']
    exact (heard_notifyWriteIf _ _).trans (heard_notifyReadIf _ _)
  · intro hhead hpos hopen t' ht' hmem hwriting
    have hne : s.fWriters.erase t ≠ [] :=
      List.ne_nil_of_mem ((List.mem_erase_of_ne ht').2 hmem)
    dsimp only [UnixFifo.setThread]
    rw [update_of_ne ht']
    apply (heard_notifyReadIf _ _).notified
    rw [decide_eq_true (⟨hhead, hne, hpos, by rw [hopen]; rfl⟩ : _ ∧ _)]
    exact notified_notifyWrite hwriting
  · intro hpos hopen t' ht' hmem hreading
    dsimp only [UnixFifo.setThread]
    rw [update_of_ne ht',
      decide_eq_true (⟨hpos, List.ne_nil_of_mem hmem, by rw [hopen]; rfl⟩ : 0 < _ ∧ _)]
    apply notified_notifyRead
    rw [(heard_notifyWriteIf _ _).reading]
    exact hreading

omit [DecidableEq T] in
lemma isOpen_of_shutdown (h : s'.fShutdown = s.fShutdown) : s'.isOpen = s.isOpen := by
  unfold UnixFifo.isOpen UnixFifo.isReadShutdown UnixFifo.isWriteShutdown
  rw [h]

omit [DecidableEq T] in
lemma isOpen_eq : s.isOpen = true ↔ s.isReadShutdown = false ∧ s.isWriteShutdown = false := by
  unfold UnixFifo.isOpen
  cases s.isReadShutdown <;> cases s.isWriteShutdown <;> simp

section

variable (hs : s.Inv)
include hs

lemma UnixFifo.Inv.finishRead (ht : (s.threads t).isReading = true)
    {r : ReadRequest A} (hcap : q.fCapacity = s.fBuffer.fCapacity)
    (hmoved : q.readable ≤ s.fBuffer.readable)
    (hsame : r.fBytesTransferred = 0 → q.readable = s.fBuffer.readable) (error : Status) :
    ({ s with fBuffer := q }.finishRead t r error).Inv := by
  have hleft := finishRead_left { s with fBuffer := q } t r error
  set s' := ({ s with fBuffer := q } : UnixFifo T A).finishRead t r error
  have hwriting : ∀ t', (s'.threads t').isWriting = (s.threads t').isWriting := by
    intro t'
    by_cases he : t' = t
    · rw [he, hleft.self.2.1, Thread.isWriting_of_isReading ht]
    · exact (hleft.others t' he).writing
  have hnot : t ∉ s.fWriters := hs.notMem_writers ht
  refine ⟨?_, ?_, fun t' => ?_, fun hopen hpos t' hhead => ?_, fun hopen hpos t' hhead => ?_⟩
  · rw [hleft.readers]
    exact hs.readers.leave hleft.self.1 fun t' he => (hleft.others t' he).reading
  · rw [hleft.writers]
    exact hs.writers.congr hwriting
  · by_cases he : t' = t
    · rw [he]
      exact hleft.self.2.2
    · exact (hleft.others t' he).counted (hs.counted t')
  · rw [isOpen_of_shutdown hleft.shutdown] at hopen
    have hr : s.isReadShutdown = false := (isOpen_eq.1 hopen).1
    rw [hleft.buffer] at hpos
    rw [hleft.readers] at hhead
    obtain ⟨hne, hmem, hfirst⟩ := head_of_erase hs.readers.nodup hhead
    rcases hfirst with hfirst | hfirst
    · -- the reader has been the first one, and notifies the others
      exact hleft.next hfirst hpos hr t' hne hmem ((hs.readers.mem t').1 hmem)
    · have hbefore : 0 < s.fBuffer.readable := by
        have hq : 0 < q.readable := hpos
        omega
      exact (hleft.others t' hne).notified (hs.reader hopen hbefore t' hfirst)
  · rw [isOpen_of_shutdown hleft.shutdown] at hopen
    have hw : s.isWriteShutdown = false := (isOpen_eq.1 hopen).2
    rw [hleft.buffer] at hpos
    rw [hleft.writers] at hhead
    have hmem : t' ∈ s.fWriters := List.mem_of_mem_head? hhead
    have hne : t' ≠ t := fun he => hnot (he ▸ hmem)
    by_cases hzero : r.fBytesTransferred = 0
    · have hbefore : 0 < s.fBuffer.writable := by
        have hq : 0 < q.fCapacity - q.readable := hpos
        have heq := hsame hzero
        show 0 < s.fBuffer.fCapacity - s.fBuffer.readable
        omega
      exact (hleft.others t' hne).notified (hs.writer hopen hbefore t' hhead)
    · exact hleft.space (by omega) hw t' hne hmem ((hs.writers.mem t').1 hmem)

lemma UnixFifo.Inv.finishWrite (ht : (s.threads t).isWriting = true)
    (hcap : q.fCapacity = s.fBuffer.fCapacity) (hmoved : s.fBuffer.readable ≤ q.readable)
    (hsame : r.fBytesTransferred = 0 → q.readable = s.fBuffer.readable) (error : Status) :
    ({ s with fBuffer := q }.finishWrite t r error).Inv := by
  have hleft := finishWrite_left { s with fBuffer := q } t r error
  set s' := ({ s with fBuffer := q } : UnixFifo T A).finishWrite t r error
  have hreading : ∀ t', (s'.threads t').isReading = (s.threads t').isReading := by
    intro t'
    by_cases he : t' = t
    · rw [he, hleft.self.1, Thread.isReading_of_isWriting ht]
    · exact (hleft.others t' he).reading
  have hnot : t ∉ s.fReaders := hs.notMem_readers ht
  refine ⟨?_, ?_, fun t' => ?_, fun hopen hpos t' hhead => ?_, fun hopen hpos t' hhead => ?_⟩
  · rw [hleft.readers]
    exact hs.readers.congr hreading
  · rw [hleft.writers]
    exact hs.writers.leave hleft.self.2.1 fun t' he => (hleft.others t' he).writing
  · by_cases he : t' = t
    · rw [he]
      exact hleft.self.2.2
    · exact (hleft.others t' he).counted (hs.counted t')
  · rw [isOpen_of_shutdown hleft.shutdown] at hopen
    have hr : s.isReadShutdown = false := (isOpen_eq.1 hopen).1
    rw [hleft.buffer] at hpos
    rw [hleft.readers] at hhead
    have hmem : t' ∈ s.fReaders := List.mem_of_mem_head? hhead
    have hne : t' ≠ t := fun he => hnot (he ▸ hmem)
    by_cases hzero : r.fBytesTransferred = 0
    · have hbefore : 0 < s.fBuffer.readable := by
        have hq : 0 < q.readable := hpos
        have heq := hsame hzero
        omega
      exact (hleft.others t' hne).notified (hs.reader hopen hbefore t' hhead)
    · exact hleft.data (by omega) hr t' hne hmem ((hs.readers.mem t').1 hmem)
  · rw [isOpen_of_shutdown hleft.shutdown] at hopen
    have hw : s.isWriteShutdown = false := (isOpen_eq.1 hopen).2
    rw [hleft.buffer] at hpos
    rw [hleft.writers] at hhead
    obtain ⟨hne, hmem, hfirst⟩ := head_of_erase hs.writers.nodup hhead
    rcases hfirst with hfirst | hfirst
    · exact hleft.next hfirst hpos hw t' hne hmem ((hs.writers.mem t').1 hmem)
    · have hbefore : 0 < s.fBuffer.writable := by
        have hq : 0 < q.fCapacity - q.readable := hpos
        show 0 < s.fBuffer.fCapacity - s.fBuffer.readable
        omega
      exact (hleft.others t' hne).notified (hs.writer hopen hbefore t' hfirst)

/-! ## Waiting -/

lemma UnixFifo.Inv.waitRead (ht : (s.threads t).isReading = true) (hx : x.isReading = true)
    (hstop : s.isOpen = true → 0 < s.fBuffer.readable → s.fReaders.head? ≠ some t) :
    (s.setThread t x).Inv := by
  have hcounted : x.counted := by
    cases x with
    | reading => trivial
    | _ => cases hx
  have hnot : x.isWriting = (s.threads t).isWriting :=
    (Thread.isWriting_of_isReading hx).trans (Thread.isWriting_of_isReading ht).symm
  have hother : ∀ t' ≠ t, (s.setThread t x).threads t' = s.threads t' :=
    fun t' ht' => update_of_ne ht' _ _
  have hself : (s.setThread t x).threads t = x := update_self _ _ _
  refine ⟨hs.readers.update (hx.trans ht.symm), hs.writers.update hnot, fun t' => ?_,
    fun hopen hpos t' hhead => ?_, fun hopen hpos t' hhead => ?_⟩
  · by_cases he : t' = t
    · rw [he, hself]
      exact hcounted
    · rw [hother t' he]
      exact hs.counted t'
  · have hne : t' ≠ t := fun he => hstop hopen hpos (he ▸ hhead)
    rw [hother t' hne]
    exact hs.reader hopen hpos t' hhead
  · have hne : t' ≠ t := fun he =>
      hs.notMem_writers ht (he ▸ List.mem_of_mem_head? hhead)
    rw [hother t' hne]
    exact hs.writer hopen hpos t' hhead

lemma UnixFifo.Inv.waitWrite (ht : (s.threads t).isWriting = true)
    (hx : x.isWriting = true) (hcounted : x.counted) (hcap : q.fCapacity = s.fBuffer.fCapacity)
    (hmoved : s.fBuffer.readable ≤ q.readable)
    (hstop : s.isOpen = true → 0 < q.writable → s.fWriters.head? ≠ some t)
    (hdata : s.isOpen = true → 0 < q.readable → ∀ t', s.fReaders.head? = some t' →
      (s.threads t').notified = true) : ({ s with fBuffer := q }.setThread t x).Inv := by
  have hnot : x.isReading = (s.threads t).isReading :=
    (Thread.isReading_of_isWriting hx).trans (Thread.isReading_of_isWriting ht).symm
  have hother : ∀ t' ≠ t, (({ s with fBuffer := q } : UnixFifo T A).setThread t x).threads t' =
      s.threads t' := fun t' ht' => update_of_ne ht' _ _
  have hself : (({ s with fBuffer := q } : UnixFifo T A).setThread t x).threads t = x :=
    update_self _ _ _
  refine ⟨hs.readers.update hnot, hs.writers.update (hx.trans ht.symm), fun t' => ?_,
    fun hopen hpos t' hhead => ?_, fun hopen hpos t' hhead => ?_⟩
  · by_cases he : t' = t
    · rw [he, hself]
      exact hcounted
    · rw [hother t' he]
      exact hs.counted t'
  · have hne : t' ≠ t := fun he =>
      hs.notMem_readers ht (he ▸ List.mem_of_mem_head? hhead)
    rw [hother t' hne]
    exact hdata hopen hpos t' hhead
  · have hne : t' ≠ t := fun he => hstop hopen hpos (he ▸ hhead)
    rw [hother t' hne]
    have hbefore : 0 < s.fBuffer.writable := by
      have hq : 0 < q.fCapacity - q.readable := hpos
      show 0 < s.fBuffer.fCapacity - s.fBuffer.readable
      omega
    exact hs.writer hopen hbefore t' hhead

/-! ## Sections -/

lemma UnixFifo.Inv.leaveRead (ht : (s.threads t).isReading = true)
    (r : ReadRequest A) (error : Status) : (s.finishRead t r error).Inv :=
  UnixFifo.Inv.finishRead (q := s.fBuffer) hs ht rfl (Nat.le_refl _) (fun _ => rfl) error

lemma UnixFifo.Inv.leaveWrite (ht : (s.threads t).isWriting = true)
    (r : WriteRequest A) (error : Status) : (s.finishWrite t r error).Inv :=
  UnixFifo.Inv.finishWrite (q := s.fBuffer) hs ht rfl (Nat.le_refl _) (fun _ => rfl) error

lemma UnixFifo.Inv.readData (ht : (s.threads t).isReading = true)
    (r : ReadRequest A) (timeout : ℤ) (faults : Faults) : (s.readData t r timeout faults).Inv := by
  unfold UnixFifo.readData
  dsimp only
  by_cases hwait : s.fBuffer.readable = 0 ∧ !s.isReadShutdown ∧ !s.isWriteShutdown
  · rw [if_pos hwait]
    exact hs.waitRead ht rfl fun _ hpos => absurd hwait.1 (Nat.ne_of_gt hpos)
  · rw [if_neg hwait]
    by_cases hempty : s.fBuffer.readable = 0
    · rw [if_pos hempty]
      exact hs.leaveRead ht r _
    · rw [if_neg hempty]
      have htaken := read_taken r.vecs faults.copies s.fBuffer r
      have hmoved := htaken.moved
      have hgrows := htaken.grows
      exact hs.finishRead ht htaken.capacity (by omega) (fun hzero => by omega) _

lemma UnixFifo.Inv.readQueue (ht : (s.threads t).isReading = true)
    (r : ReadRequest A) (timeout : ℤ) (faults : Faults) : (s.readQueue t r timeout faults).Inv := by
  unfold UnixFifo.readQueue
  split_ifs with hwait
  · exact hs.waitRead ht rfl fun _ _ => hwait.1
  · exact hs.leaveRead ht r _
  · exact hs.leaveRead ht r _
  · exact hs.leaveRead ht r _
  · exact hs.readData ht r timeout faults

section

variable (ht : (s.threads t).isWriting = true)
include ht

lemma UnixFifo.Inv.writeSpace
    (hcount : r.fTotalSize = r.fBytesTransferred + bytesOf r.vecs) (timeout : ℤ) (faults : Faults)
    (hmet : s.isOpen = true → s.fills r faults → s.readerReady) :
    (s.writeSpace t r timeout faults).Inv := by
  have hput := write_put s.fBuffer r faults
  have hmoved := hput.moved
  have hgrows := hput.grows
  unfold UnixFifo.writeSpace
  dsimp only
  split_ifs with hdone hwait hws hrs hlast
  · exact hs.leaveWrite ht r _
  · exact UnixFifo.Inv.waitWrite (q := s.fBuffer) hs ht rfl hcount rfl (Nat.le_refl _)
      (fun _ hpos => absurd hwait.1 (Nat.ne_of_gt hpos)) hs.reader
  · exact hs.leaveWrite ht r _
  · exact hs.leaveWrite ht r _
  · exact hs.finishWrite ht hput.capacity (by omega) (fun hzero => by omega) _
  · -- everything that fits has been transferred, and some of the request is left
    obtain ⟨hstatus, hrest⟩ := not_or.1 hlast
    have hok := not_not.1 hstatus
    obtain ⟨hmost, hreach⟩ := hput.most hok
    have htotal := hput.total
    have hleft : (s.fBuffer.write r faults).2.2.fTotalSize -
        (s.fBuffer.write r faults).2.2.fBytesTransferred ≠ 0 := hrest
    have hcounted := hput.rest
    have hcap := hput.capacity
    have hwritable : s.fBuffer.writable = s.fBuffer.fCapacity - s.fBuffer.readable := rfl
    have hfull : (s.fBuffer.write r faults).2.1.writable = 0 := by
      show (s.fBuffer.write r faults).2.1.fCapacity - (s.fBuffer.write r faults).2.1.readable = 0
      omega
    apply UnixFifo.Inv.waitWrite hs ht rfl (by show _ = _; omega) hcap (by omega)
    · intro _ hpos
      omega
    · intro hopen _
      have hpos : 0 < s.fBuffer.writable := by
        obtain ⟨hr, hw⟩ := isOpen_eq.1 hopen
        apply Nat.pos_of_ne_zero
        intro hzero
        exact hwait ⟨hzero, by rw [hw]; rfl, by rw [hr]; rfl⟩
      have hremaining : r.bytesRemaining = r.fTotalSize - r.fBytesTransferred := rfl
      exact hmet hopen ⟨hpos, by omega, by omega, write_memory hok hpos⟩

lemma UnixFifo.Inv.writeQueue
    (hcount : r.fTotalSize = r.fBytesTransferred + bytesOf r.vecs) (timeout : ℤ) (faults : Faults)
    (hmet : s.isOpen = true → s.fWriters.head? = some t → s.fills r faults → s.readerReady) :
    (s.writeQueue t r timeout faults).Inv := by
  unfold UnixFifo.writeQueue
  split_ifs with hwait hws hrs hzero
  · exact UnixFifo.Inv.waitWrite (q := s.fBuffer) hs ht rfl hcount rfl (Nat.le_refl _)
      (fun _ _ => hwait.1) hs.reader
  · exact hs.leaveWrite ht r _
  · exact hs.leaveWrite ht r _
  · exact hs.leaveWrite ht r _
  · apply hs.writeSpace ht hcount timeout faults
    intro hopen
    apply hmet hopen
    by_contra hne
    exact hwait ⟨hne, by rw [(isOpen_eq.1 hopen).2]; rfl⟩

lemma UnixFifo.Inv.writeNonBlocking
    (r : WriteRequest A) (faults : Faults) : (s.writeNonBlocking t r faults).Inv := by
  have hput := write_put s.fBuffer r faults
  have hmoved := hput.moved
  have hgrows := hput.grows
  unfold UnixFifo.writeNonBlocking
  dsimp only
  split_ifs
  · exact hs.leaveWrite ht r _
  · exact hs.leaveWrite ht r _
  · exact hs.finishWrite ht hput.capacity (by omega) (fun hzero => by omega) _

end

end

/-! ## Calls -/

lemma reading_of_isOutside (h : x.isOutside = true) :
    x.isReading = false ∧ x.isWriting = false := by
  cases x with
  | outside => exact ⟨rfl, rfl⟩
  | _ => cases h

section

variable (hs : s.Inv)
include hs

lemma UnixFifo.Inv.refuse (ht : (s.threads t).isOutside = true) (error : Status) :
    (s.setThread t (.outside error 0 [] [])).Inv := by
  refine UnixFifo.Inv.heard hs rfl rfl rfl id fun t' => ?_
  by_cases he : t' = t
  · obtain ⟨hr, hw⟩ := reading_of_isOutside ht
    have hself : (s.setThread t (.outside error 0 [] [])).threads t = .outside error 0 [] [] :=
      update_self _ _ _
    rw [he, hself]
    refine ⟨hr.symm, hw.symm, fun hn => ?_, fun _ => trivial⟩
    cases hx : s.threads t with
    | outside => rw [hx] at hn; cases hn
    | reading => rw [hx] at hr; cases hr
    | writing => rw [hx] at hw; cases hw
  · have hother : (s.setThread t (.outside error 0 [] [])).threads t' = s.threads t' :=
      update_of_ne he _ _
    rw [hother]
    exact .refl _

lemma UnixFifo.Inv.addReader (ht : (s.threads t).isOutside = true)
    (r : ReadRequest A) (timeout : ℤ) :
    ({ s with fReaders := s.fReaders ++ [t] }.setThread t (.reading r timeout .queue true)).Inv := by
  obtain ⟨hr, hw⟩ := reading_of_isOutside ht
  refine ⟨hs.readers.append hr rfl, hs.writers.update hw.symm, fun t' => ?_,
    fun hopen hpos t' hhead => ?_, fun hopen hpos t' hhead => ?_⟩
  all_goals
    dsimp only [UnixFifo.setThread]
    by_cases he : t' = t
  · rw [he, update_self]
    trivial
  · rw [update_of_ne he]
    exact hs.counted t'
  · rw [he, update_self]
    rfl
  · rw [update_of_ne he]
    exact hs.reader hopen hpos t' ((head_of_append hhead).resolve_right he)
  · rw [he, update_self]
    rfl
  · rw [update_of_ne he]
    exact hs.writer hopen hpos t' hhead

lemma UnixFifo.Inv.addWriter (ht : (s.threads t).isOutside = true)
    (hcount : r.fTotalSize = r.fBytesTransferred + bytesOf r.vecs) (timeout : ℤ) :
    ({ s with fWriters := s.fWriters ++ [t] }.setThread t (.writing r timeout .queue true)).Inv := by
  obtain ⟨hr, hw⟩ := reading_of_isOutside ht
  refine ⟨hs.readers.update hr.symm, hs.writers.append hw rfl, fun t' => ?_,
    fun hopen hpos t' hhead => ?_, fun hopen hpos t' hhead => ?_⟩
  all_goals
    dsimp only [UnixFifo.setThread]
    by_cases he : t' = t
  · rw [he, update_self]
    exact hcount
  · rw [update_of_ne he]
    exact hs.counted t'
  · rw [he, update_self]
    rfl
  · rw [update_of_ne he]
    exact hs.reader hopen hpos t' hhead
  · rw [he, update_self]
    rfl
  · rw [update_of_ne he]
    exact hs.writer hopen hpos t' ((head_of_append hhead).resolve_right he)

lemma UnixFifo.Inv.read (ht : (s.threads t).isOutside = true) (vecs : List ℕ)
    (timeout : ℤ) (faults : Faults) : (s.read t vecs timeout faults).Inv := by
  unfold UnixFifo.read
  dsimp only
  have hadded := hs.addReader ht (.new vecs) timeout
  have hreading : (({ s with fReaders := s.fReaders ++ [t] }.setThread t
      (.reading (.new vecs) timeout .queue true) : UnixFifo T A).threads t).isReading = true := by
    dsimp only [UnixFifo.setThread]
    rw [update_self]
    rfl
  split_ifs
  · exact hs.refuse ht .shutdown
  · exact hadded.leaveRead hreading _ _
  · exact hadded.readQueue hreading _ timeout faults

lemma UnixFifo.Inv.write (ht : (s.threads t).isOutside = true)
    (vecs : List (List Byte)) (ancillaryData : Option A) (timeout : ℤ) (faults : Faults)
    (hmet : Met s (.write t vecs ancillaryData timeout faults)) :
    (s.write t vecs ancillaryData timeout faults).Inv := by
  unfold UnixFifo.write
  dsimp only
  have hcount : (WriteRequest.new vecs ancillaryData).fTotalSize =
      (WriteRequest.new vecs ancillaryData).fBytesTransferred +
        bytesOf (WriteRequest.new vecs ancillaryData).vecs := (Nat.zero_add _).symm
  have hadded := hs.addWriter ht hcount timeout
  have hwriting : (({ s with fWriters := s.fWriters ++ [t] }.setThread t
      (.writing (.new vecs ancillaryData) timeout .queue true) :
        UnixFifo T A).threads t).isWriting = true := by
    dsimp only [UnixFifo.setThread]
    rw [update_self]
    rfl
  split_ifs with hws hrs hnonblocking
  · exact hs.refuse ht .shutdown
  · exact hs.refuse ht .brokenPipe
  · exact hadded.writeNonBlocking hwriting _ faults
  · apply hadded.writeQueue hwriting hcount timeout faults
    intro hopen hhead hfills t' hreader
    have hne : t' ≠ t := by
      intro he
      exact hadded.notMem_readers hwriting (he ▸ List.mem_of_mem_head? hreader)
    have hempty : s.fWriters = [] := by
      cases hw : s.fWriters with
      | nil => rfl
      | cons i l =>
        -- the writer is not at the head if others are there
        have hi : (s.fWriters ++ [t]).head? = some t := hhead
        rw [hw] at hi
        have hmem : t ∈ s.fWriters := by
          rw [hw, Option.some.inj hi]
          exact List.mem_cons_self
        rw [hs.writers.mem, (reading_of_isOutside ht).2] at hmem
        cases hmem
    dsimp only [UnixFifo.setThread]
    rw [update_of_ne hne]
    exact hmet hopen hempty hnonblocking hfills t' hreader

/-! ## Runs -/

lemma UnixFifo.Inv.woken {wakeup : Wakeup} {faults : Faults}
    (hmet : Met s (.woken t wakeup faults)) (h : s.woken t wakeup faults = some s') : s'.Inv := by
  unfold UnixFifo.woken at h
  cases hx : s.threads t with
  | outside => rw [hx] at h; cases h
  | reading r timeout place notified =>
    have ht : (s.threads t).isReading = true := by rw [hx]; rfl
    rw [hx] at h
    dsimp only at h
    split_ifs at h
    · cases h
      exact hs.leaveRead ht r _
    · cases h
      cases place with
      | queue => exact hs.readQueue ht r timeout faults
      | transfer => exact hs.readData ht r timeout faults
  | writing r timeout place notified =>
    have ht : (s.threads t).isWriting = true := by rw [hx]; rfl
    have hcount : r.fTotalSize = r.fBytesTransferred + bytesOf r.vecs := by
      have hc := hs.counted t
      rw [hx] at hc
      exact hc
    rw [hx] at h
    dsimp only at h
    split_ifs at h with hw hn
    · cases h
      exact hs.leaveWrite ht r _
    · cases h
      rw [not_not.1 hw] at hmet
      dsimp only [Met] at hmet
      rw [hx, hn] at hmet
      cases place with
      | queue =>
        exact hs.writeQueue ht hcount timeout faults fun ho hh => hmet ho (.inr hh)
      | transfer =>
        exact hs.writeSpace ht hcount timeout faults fun ho => hmet ho (.inl rfl)

end

lemma and_eq_zero_of_or {x y b : BitVec 32} (h : (x ||| y) &&& b = 0) : x &&& b = 0 := by
  ext i hi
  have hbit : ((x ||| y) &&& b)[i] = (0 : BitVec 32)[i] := by rw [h]
  simp only [BitVec.getElem_and, BitVec.getElem_or] at hbit ⊢
  cases hx : x[i] with
  | false => simp
  | true =>
    rw [hx, Bool.true_or] at hbit
    exact hbit

omit [DecidableEq T] in
lemma UnixFifo.Inv.shutdown (hs : s.Inv) (shutdown : BitVec 32) :
    (s.shutdown shutdown).Inv := by
  have hopen : ({ s with fShutdown := s.fShutdown ||| shutdown } : UnixFifo T A).isOpen = true →
      s.isOpen = true := by
    intro h
    obtain ⟨hr, hw⟩ := isOpen_eq.1 h
    have hbits : ∀ bit : BitVec 32, (s.fShutdown ||| shutdown) &&& bit = 0 →
        s.fShutdown &&& bit = 0 := fun bit => and_eq_zero_of_or
    refine isOpen_eq.2 ⟨?_, ?_⟩
    · apply decide_eq_false
      exact not_not.2 (hbits _ (not_not.1 (of_decide_eq_false hr)))
    · apply decide_eq_false
      exact not_not.2 (hbits _ (not_not.1 (of_decide_eq_false hw)))
  unfold UnixFifo.shutdown
  dsimp only
  split_ifs
  · exact UnixFifo.Inv.heard hs rfl rfl rfl hopen fun t =>
      (heard_notifyRead _).trans (heard_notifyWrite _)
  · exact UnixFifo.Inv.heard hs rfl rfl rfl hopen fun t => .refl _

lemma UnixFifo.Inv.step {a : Action T A} (hs : s.Inv) (hmet : Met s a)
    (h : Unix.step s a = some s') : s'.Inv := by
  cases a with
  | read t vecs timeout faults =>
    unfold Unix.step at h
    dsimp only at h
    split_ifs at h with ht
    cases h
    exact hs.read ht vecs timeout faults
  | write t vecs ancillaryData timeout faults =>
    unfold Unix.step at h
    dsimp only at h
    split_ifs at h with ht
    cases h
    exact hs.write ht vecs ancillaryData timeout faults hmet
  | woken t wakeup faults => exact hs.woken hmet h
  | shutdown shutdown =>
    cases h
    exact hs.shutdown shutdown

omit [DecidableEq T] in
lemma inv_new (capacity : ℕ) : (UnixFifo.new T A capacity).Inv :=
  ⟨.nil fun _ => rfl, .nil fun _ => rfl, fun _ => trivial, fun _ _ _ => nofun,
    fun _ _ _ => nofun⟩

/-- If all threads inside wait without a pending notification and no end is shut down, the first
reader has nothing to read and the first writer has no space. -/
def UnixFifo.NotStuck (s : UnixFifo T A) : Prop :=
  (∀ t, (s.threads t).notified = false) → s.isOpen = true →
    (s.fReaders ≠ [] → s.fBuffer.readable = 0) ∧ (s.fWriters ≠ [] → s.fBuffer.writable = 0)

def unixMaxTransferUnit : ℕ := 65536

lemma write_long {capacity : ℕ} (hpos : 0 < capacity) :
    (⟨capacity, [], []⟩ : UnixBufferQueue Unit).write
        (.new [List.replicate (capacity + 1) 7] none) noFaults =
      (.ok, ⟨capacity, List.replicate capacity 7, []⟩, ⟨capacity + 1, capacity, [[7]], none⟩) := by
  have hw : (⟨capacity, [], []⟩ : UnixBufferQueue Unit).writable = capacity := rfl
  have hne : capacity ≠ 0 := by omega
  simp [UnixBufferQueue.write, UnixBufferQueue.writeVecs, WriteRequest.new, noFaults, hw, hne,
    UnixBufferQueue.writeBytes]

lemma open_of_zero (h : s.fShutdown = 0) :
    s.isReadShutdown = false ∧ s.isWriteShutdown = false := by
  unfold UnixFifo.isReadShutdown UnixFifo.isWriteShutdown
  rw [h]
  decide

lemma exists_stuck {capacity : ℕ} (hpos : 0 < capacity) :
    ∃ h s, Run step (fun _ _ => True) (.new (Fin 2) Unit capacity) h s ∧ ¬s.NotStuck := by
  let s₀ : UnixFifo (Fin 2) Unit := .new (Fin 2) Unit capacity
  let r : ReadRequest Unit := .new [1]
  let first := ({ s₀ with fReaders := [0] } : UnixFifo (Fin 2) Unit).setThread 0
    (.reading r 1 .queue true)
  let s₁ := first.setThread 0 (.reading r 1 .transfer false)
  have h₁ : step s₀ (.read 0 [1] 1 noFaults) = some s₁ := by
    obtain ⟨hr₀, hw₀⟩ := open_of_zero (s := s₀) rfl
    obtain ⟨hr, hw⟩ := open_of_zero (s := first) rfl
    have hcall : s₀.read 0 [1] 1 noFaults = first.readQueue 0 r 1 noFaults := by
      unfold UnixFifo.read
      rw [if_neg (by rw [hr₀]; exact fun h => Bool.false_ne_true h.1)]
      dsimp only
      rw [if_neg (fun h => absurd h.2 (by decide))]
      rfl
    have hqueue : first.readQueue 0 r 1 noFaults = first.readData 0 r 1 noFaults := by
      unfold UnixFifo.readQueue
      rw [if_neg (fun h => h.1 rfl), if_neg (by rw [hr]; exact fun h => Bool.false_ne_true h.2),
        if_neg (by rw [hw]; exact fun h => Bool.false_ne_true h.2),
        if_neg (fun h => absurd h.2 (by decide))]
    have hdata : first.readData 0 r 1 noFaults = s₁ := by
      unfold UnixFifo.readData
      rw [if_pos ⟨rfl, by rw [hr]; rfl, by rw [hw]; rfl⟩]
    show some (s₀.read 0 [1] 1 noFaults) = _
    rw [hcall, hqueue, hdata]
  let vec := List.replicate (capacity + 1) (7 : Byte)
  let w : WriteRequest Unit := .new [vec] none
  let added := ({ s₁ with fWriters := [1] } : UnixFifo (Fin 2) Unit).setThread 1
    (.writing w 1 .queue true)
  let s₂ := ({ added with fBuffer := ⟨capacity, List.replicate capacity 7, []⟩ } :
    UnixFifo (Fin 2) Unit).setThread 1
      (.writing ⟨capacity + 1, capacity, [[7]], none⟩ 1 .transfer false)
  have hsize : w.fTotalSize = capacity + 1 := by
    show (vec.length + 0) = _
    rw [List.length_replicate]
  have h₂ : step s₁ (.write 1 [vec] none 1 noFaults) = some s₂ := by
    obtain ⟨hr₁, hw₁⟩ := open_of_zero (s := s₁) rfl
    obtain ⟨hr, hw⟩ := open_of_zero (s := added) rfl
    have hcall : s₁.write 1 [vec] none 1 noFaults = added.writeQueue 1 w 1 noFaults := by
      unfold UnixFifo.write
      rw [if_neg (by rw [hw₁]; exact Bool.false_ne_true),
        if_neg (by rw [hr₁]; exact Bool.false_ne_true)]
      dsimp only
      rw [if_neg (by decide)]
      rfl
    have hqueue : added.writeQueue 1 w 1 noFaults = added.writeSpace 1 w 1 noFaults := by
      unfold UnixFifo.writeQueue
      rw [if_neg (fun h => h.1 rfl), if_neg (by rw [hw]; exact Bool.false_ne_true),
        if_neg (by rw [hr]; exact Bool.false_ne_true), if_neg (by omega)]
    have hspace : added.writeSpace 1 w 1 noFaults = s₂ := by
      have hremaining : w.bytesRemaining = capacity + 1 := hsize
      have hwritable : added.fBuffer.writable = capacity := rfl
      have hwrite : added.fBuffer.write w noFaults = _ := write_long hpos
      have hleft : (⟨capacity + 1, capacity, [[7]], none⟩ : WriteRequest Unit).bytesRemaining =
          1 := Nat.add_sub_cancel_left _ _
      unfold UnixFifo.writeSpace
      dsimp only
      rw [hwrite, if_neg (by omega), if_neg (by omega),
        if_neg (by rw [hw]; exact Bool.false_ne_true),
        if_neg (by rw [hr]; exact Bool.false_ne_true)]
      dsimp only
      rw [hleft, if_neg (by decide)]
    show some (s₁.write 1 [vec] none 1 noFaults) = _
    rw [hcall, hqueue, hspace]
  have hr : Run step (fun _ _ => True) s₀ [_, _] s₂ := .snoc (.snoc .nil trivial h₁) trivial h₂
  refine ⟨_, _, hr, fun hstuck => ?_⟩
  have hquiet : ∀ t, (s₂.threads t).notified = false := Fin.forall_fin_two.2 ⟨rfl, rfl⟩
  have hopen : s₂.isOpen = true := isOpen_eq.2 (open_of_zero rfl)
  have hempty := (hstuck hquiet hopen).1 (List.cons_ne_nil _ _)
  have hfull : s₂.fBuffer.readable = capacity := List.length_replicate
  omega
end Haiku.Unix
