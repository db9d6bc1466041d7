import Haiku.Lib.Enrolled
import Haiku.Port.Queue

/-!
# A port is a bounded queue

Readers test `read_count` again when they have been woken. A writer does not test `write_count`
again: its notification stands for a place. A writer whose wait ends without a notification has no
place, and must not pass one on.
-/

namespace Haiku.Port.Queue

open Function Lib

/-! ## The bytes of a message -/

/-- The first vector that has bytes fills the buffer. -/
def covered (vecs : List (List Byte)) (bufferSize : ℕ) : Prop :=
  bufferSize = 0 ∨ ∃ vec, vecs.find? (· ≠ []) = some vec ∧ bufferSize ≤ vec.length

variable {vecs : List (List Byte)} {bufferSize : ℕ}

lemma copyVecs_covered {vec : List Byte} (hfirst : vecs.find? (· ≠ []) = some vec)
    (hle : bufferSize ≤ vec.length) (hpos : 0 < bufferSize) {buffer : List Byte}
    (hlen : buffer.length = bufferSize) :
    copyVecs buffer vecs bufferSize = vecs.flatten.take bufferSize := by
  induction vecs with
  | nil => cases hfirst
  | cons first vecs ih =>
    unfold copyVecs
    dsimp only
    by_cases hempty : first = []
    · -- nothing is copied from an empty vector
      subst hempty
      rw [if_neg (by simp; omega)]
      simpa using ih hfirst
    · have hfind : List.find? (· ≠ []) (first :: vecs) = some first := by simp [hempty]
      rw [hfind] at hfirst
      cases hfirst
      have hbytes : min vec.length bufferSize = bufferSize := by omega
      rw [hbytes, Nat.sub_self, if_pos rfl, List.drop_of_length_le (by omega), List.append_nil,
        List.flatten_cons, List.take_append_of_le_length hle]

/-! ## The threads -/

def Thread.isWriter : Thread → Bool
  | .waiting call _ _ => call.isWrite
  | .returned call _ _ => call.isWrite
  | .outside _ => false

/-- A writer that has been notified has a place in the queue. -/
def Thread.hasPlace : Thread → Bool
  | .waiting call notified _ => call.isWrite && notified
  | .returned call notified _ => call.isWrite && notified
  | .outside _ => false

/-- Whether the entry of a thread is in the list of `read_condition` -/
def Thread.waitsToRead : Thread → Bool
  | .waiting call notified _ => !call.isWrite && !notified
  | _ => false

/-- Whether the entry of a thread is in the list of `write_condition` -/
def Thread.waitsToWrite : Thread → Bool
  | .waiting call notified _ => call.isWrite && !notified
  | _ => false

/-- A thread that has been unblocked without an error has been notified. -/
def Thread.sound : Thread → Prop
  | .waiting _ notified (some .ok) => notified = true
  | .returned _ notified .ok => notified = true
  | _ => True

section

variable {x : Thread} {result : Status}

lemma sound_notify (h : x.sound) : (x.notify result).sound := by
  cases x with
  | waiting call notified unblocked =>
    unfold Thread.notify Thread.sound
    split <;> simp_all
  | _ => exact h

lemma isWriter_notify : (x.notify result).isWriter = x.isWriter := by
  cases x <;> rfl

lemma notify_waitsToRead (result : Status) (h : x.waitsToRead = true) :
    (x.notify result).waitsToRead = false ∧ (x.notify result).waitsToWrite = false ∧
      (x.notify result).hasPlace = x.hasPlace := by
  cases x with
  | waiting call notified unblocked =>
    simp only [Thread.waitsToRead, Bool.and_eq_true, Bool.not_eq_true'] at h
    simp [Thread.notify, Thread.waitsToRead, Thread.waitsToWrite, Thread.hasPlace, h.1]
  | _ => cases h

lemma notify_waitsToWrite (result : Status) (h : x.waitsToWrite = true) :
    (x.notify result).waitsToRead = false ∧ (x.notify result).waitsToWrite = false ∧
      (x.notify result).hasPlace = true ∧ x.hasPlace = false := by
  cases x with
  | waiting call notified unblocked =>
    simp only [Thread.waitsToWrite, Bool.and_eq_true, Bool.not_eq_true'] at h
    simp [Thread.notify, Thread.waitsToRead, Thread.waitsToWrite, Thread.hasPlace, h.1, h.2]
  | _ => cases h

lemma waitsToWrite_of_waitsToRead (h : x.waitsToRead = true) : x.waitsToWrite = false := by
  cases x with
  | waiting call notified unblocked =>
    simp only [Thread.waitsToRead, Bool.and_eq_true, Bool.not_eq_true'] at h
    simp [Thread.waitsToWrite, h.1]
  | _ => cases h

end

/-! ## The lists of the condition variables -/

section

variable {T : Type}

/-- The lists hold the threads that wait and have not been notified. -/
structure Queues (s : PortEntry T) : Prop where
  readers : Enrolled s.readCondition Thread.waitsToRead s.threads
  writers : Enrolled s.writeCondition Thread.waitsToWrite s.threads
  sound : ∀ t, (s.threads t).sound

/-- What stays the same when a thread is notified -/
structure SameBooks (s s' : PortEntry T) : Prop where
  alive : s'.alive = s.alive
  capacity : s'.capacity = s.capacity
  readCount : s'.readCount = s.readCount
  writeCount : s'.writeCount = s.writeCount
  messages : s'.messages = s.messages
  sent : s'.sent = s.sent
  received : s'.received = s.received

variable [DecidableEq T] [Fintype T] {s : PortEntry T} {t : T}

omit [Fintype T] in
lemma sound_update {f : T → Thread} {x : Thread} (h : ∀ t, (f t).sound) (hx : x.sound) (t' : T) :
    (update f t x t').sound := by
  by_cases he : t' = t
  · rw [he, update_self]
    exact hx
  · rw [update_of_ne he]
    exact h t'

lemma notifyReader_spec (hs : Queues s) (ht : (s.threads t).waitsToRead = false) :
    Queues s.notifyReader ∧ SameBooks s s.notifyReader ∧
      s.notifyReader.threads t = s.threads t ∧
      tally (indicator Thread.isWriter) s.notifyReader.threads =
        tally (indicator Thread.isWriter) s.threads ∧
      tally (indicator Thread.hasPlace) s.notifyReader.threads =
        tally (indicator Thread.hasPlace) s.threads := by
  unfold PortEntry.notifyReader
  cases hl : s.readCondition with
  | nil => exact ⟨hs, ⟨rfl, rfl, rfl, rfl, rfl, rfl, rfl⟩, rfl, rfl, rfl⟩
  | cons h l =>
    dsimp only [PortEntry.notify]
    have hreaders := hs.readers
    rw [hl] at hreaders
    have hwaits : (s.threads h).waitsToRead = true := hreaders.head rfl
    obtain ⟨hnot, hnotW, hplace⟩ := notify_waitsToRead .ok hwaits
    have hne : t ≠ h := by
      intro he
      rw [he, hwaits] at ht
      cases ht
    have hwriters := tally_update (indicator Thread.isWriter) s.threads h
      ((s.threads h).notify .ok)
    have hplaces := tally_update (indicator Thread.hasPlace) s.threads h
      ((s.threads h).notify .ok)
    rw [indicator, indicator, isWriter_notify] at hwriters
    rw [indicator, indicator, hplace] at hplaces
    refine ⟨⟨hreaders.tail hnot, hs.writers.update ?_, sound_update hs.sound (sound_notify
      (hs.sound h))⟩, ⟨rfl, rfl, rfl, rfl, rfl, rfl, rfl⟩,
      update_of_ne hne _ _, by omega, by omega⟩
    rw [hnotW, waitsToWrite_of_waitsToRead hwaits]

lemma notifyWriter_spec (hs : Queues s) (ht : (s.threads t).waitsToWrite = false) :
    Queues s.notifyWriter ∧ SameBooks s s.notifyWriter ∧
      s.notifyWriter.threads t = s.threads t ∧
      tally (indicator Thread.isWriter) s.notifyWriter.threads =
        tally (indicator Thread.isWriter) s.threads ∧
      tally (indicator Thread.hasPlace) s.notifyWriter.threads ≤
        tally (indicator Thread.hasPlace) s.threads + 1 ∧
      (s.writeCondition = [] → tally (indicator Thread.hasPlace) s.notifyWriter.threads =
        tally (indicator Thread.hasPlace) s.threads) := by
  unfold PortEntry.notifyWriter
  cases hl : s.writeCondition with
  | nil =>
    exact ⟨hs, ⟨rfl, rfl, rfl, rfl, rfl, rfl, rfl⟩, rfl, rfl, Nat.le_succ _, fun _ => rfl⟩
  | cons h l =>
    dsimp only [PortEntry.notify]
    have hwriters := hs.writers
    rw [hl] at hwriters
    have hwaits : (s.threads h).waitsToWrite = true := hwriters.head rfl
    obtain ⟨hnotR, hnot, hplace, hbefore⟩ := notify_waitsToWrite .ok hwaits
    have hne : t ≠ h := by
      intro he
      rw [he, hwaits] at ht
      cases ht
    have hreads : (s.threads h).waitsToRead = false := by
      by_contra hr
      rw [Bool.not_eq_false] at hr
      rw [waitsToWrite_of_waitsToRead hr] at hwaits
      cases hwaits
    have hcount := tally_update (indicator Thread.isWriter) s.threads h
      ((s.threads h).notify .ok)
    have hplaces := tally_update (indicator Thread.hasPlace) s.threads h
      ((s.threads h).notify .ok)
    rw [indicator, indicator, isWriter_notify] at hcount
    rw [indicator, indicator, hplace, hbefore, if_pos rfl, if_neg Bool.false_ne_true] at hplaces
    refine ⟨⟨hs.readers.update ?_, hwriters.tail hnot, sound_update hs.sound (sound_notify
      (hs.sound h))⟩, ⟨rfl, rfl, rfl, rfl, rfl, rfl, rfl⟩,
      update_of_ne hne _ _, by omega, by omega, nofun⟩
    rw [hnotR, hreads]

/-! ## The books -/

def Message.content (m : Message) : BitVec 32 × List Byte := (m.code, m.buffer)

/-- What holds while the port is open -/
structure Books (queueLength : ℕ) (s : PortEntry T) : Prop where
  queues : Queues s
  reads : s.readCount = s.messages.length
  writes : s.writeCount = queueLength - s.messages.length -
    (tally (indicator Thread.isWriter) s.threads : ℕ)
  places : s.messages.length + tally (indicator Thread.hasPlace) s.threads ≤ queueLength
  order : (s.received ++ s.messages).map Message.content = s.sent

structure Thread.Busy (x : Thread) : Prop where
  notReading : x.waitsToRead = false
  notWriting : x.waitsToWrite = false
  sound : x.sound

omit [Fintype T] in
lemma put_queues {s' : PortEntry T} {x' : Thread} (hs : Queues s') (hx : (s'.threads t).Busy)
    (hx' : x'.Busy) : Queues (PortEntry.put (s', x') t) :=
  ⟨hs.readers.update (hx'.notReading.trans hx.notReading.symm),
    hs.writers.update (hx'.notWriting.trans hx.notWriting.symm), sound_update hs.sound hx'.sound⟩

lemma books_put {queueLength : ℕ} {s' : PortEntry T} {x' : Thread} (hs : Queues s')
    (hx : (s'.threads t).Busy) (hx' : x'.Busy) (hreads : s'.readCount = s'.messages.length)
    (hwrites : s'.writeCount + s'.messages.length +
      (tally (indicator Thread.isWriter) s'.threads : ℕ) + (indicator Thread.isWriter x' : ℕ) =
        queueLength + (indicator Thread.isWriter (s'.threads t) : ℕ))
    (hplaces : s'.messages.length + tally (indicator Thread.hasPlace) s'.threads +
      indicator Thread.hasPlace x' ≤ queueLength + indicator Thread.hasPlace (s'.threads t))
    (horder : (s'.received ++ s'.messages).map Message.content = s'.sent) :
    Books queueLength (PortEntry.put (s', x') t) := by
  have hw := tally_update (indicator Thread.isWriter) s'.threads t x'
  have hp := tally_update (indicator Thread.hasPlace) s'.threads t x'
  refine ⟨put_queues hs hx hx', hreads, ?_, ?_, horder⟩
  · show s'.writeCount = queueLength - s'.messages.length -
      (tally (indicator Thread.isWriter) (update s'.threads t x') : ℕ)
    omega
  · show s'.messages.length +
      tally (indicator Thread.hasPlace) (update s'.threads t x') ≤ queueLength
    omega

lemma busy_outside (result : Result) : (Thread.outside result).Busy := ⟨rfl, rfl, trivial⟩

/-! ## Sections -/

structure Reading (x : Thread) : Prop where
  busy : x.Busy
  writer : x.isWriter = false
  place : x.hasPlace = false

lemma Reading.indicator_zero {x : Thread} (h : Reading x) :
    indicator Thread.isWriter x = 0 ∧ indicator Thread.hasPlace x = 0 := by
  unfold indicator
  rw [h.writer, h.place]
  exact ⟨rfl, rfl⟩

variable {queueLength : ℕ} {input : Input}

lemma Books.leave (hb : Books queueLength s) (hx : Reading (s.threads t)) (result : Result) :
    Books queueLength (PortEntry.put (s, .outside result) t) := by
  obtain ⟨hw, hp⟩ := hx.indicator_zero
  have hwrites := hb.writes
  have hplaces := hb.places
  apply books_put hb.queues hx.busy (busy_outside result) hb.reads
  · rw [hw]
    show s.writeCount + _ + _ + (0 : ℕ) = _
    omega
  · rw [hp]
    exact hplaces
  · exact hb.order

lemma Books.peek (hb : Books queueLength s) (hx : Reading (s.threads t)) (result : Result) :
    Books queueLength (PortEntry.put (s.notifyReader, .outside result) t) := by
  obtain ⟨hq, hsame, hself, htw, htp⟩ := notifyReader_spec hb.queues hx.busy.notReading
  obtain ⟨hw, hp⟩ := hx.indicator_zero
  have hwrites := hb.writes
  have hplaces := hb.places
  apply books_put hq (by rw [hself]; exact hx.busy) (busy_outside result)
  · rw [hsame.readCount, hsame.messages]
    exact hb.reads
  · rw [hself, hw, hsame.writeCount, hsame.messages, htw]
    show s.writeCount + _ + _ + (0 : ℕ) = _
    omega
  · rw [hself, hp, hsame.messages, htp]
    exact hplaces
  · rw [hsame.received, hsame.messages, hsame.sent]
    exact hb.order

lemma Books.take (hb : Books queueLength s) (hx : Reading (s.threads t)) {message : Message}
    {messages : List Message} (hm : s.messages = message :: messages) (result : Result) :
    Books queueLength (PortEntry.put
      (({ s with
          messages := messages
          totalCount := s.totalCount + 1
          writeCount := s.writeCount + 1
          readCount := s.readCount - 1
          received := s.received ++ [message] } : PortEntry T).notifyWriter, .outside result) t) := by
  set removed : PortEntry T := { s with
    messages := messages
    totalCount := s.totalCount + 1
    writeCount := s.writeCount + 1
    readCount := s.readCount - 1
    received := s.received ++ [message] }
  have hqueues : Queues removed := ⟨hb.queues.readers, hb.queues.writers, hb.queues.sound⟩
  obtain ⟨hq, hsame, hself, htw, htp, -⟩ :=
    notifyWriter_spec (t := t) hqueues hx.busy.notWriting
  obtain ⟨hw, hp⟩ := hx.indicator_zero
  have hlength : s.messages.length = messages.length + 1 := by rw [hm]; rfl
  have hwrites := hb.writes
  have hplaces := hb.places
  have hreads := hb.reads
  have hself' : removed.notifyWriter.threads t = s.threads t := hself
  apply books_put hq (by rw [hself']; exact hx.busy) (busy_outside result)
  · rw [hsame.readCount, hsame.messages]
    show s.readCount - 1 = messages.length
    omega
  · rw [hself', hw, hsame.writeCount, hsame.messages, htw]
    show s.writeCount + 1 + messages.length +
      (tally (indicator Thread.isWriter) s.threads : ℕ) + (0 : ℕ) = _
    omega
  · have hthreads : removed.threads = s.threads := rfl
    rw [hthreads] at htp
    rw [hself', hp, hsame.messages]
    show messages.length + _ + 0 ≤ queueLength + 0
    omega
  · rw [hsame.received, hsame.messages, hsame.sent]
    show (s.received ++ [message] ++ messages).map _ = s.sent
    rw [List.append_assoc, List.singleton_append, ← hm]
    exact hb.order

lemma indicator_waiting (call : Call) :
    indicator Thread.isWriter (.waiting call false none) = (if call.isWrite then 1 else 0) ∧
      indicator Thread.hasPlace (.waiting call false none) = 0 := by
  refine ⟨rfl, ?_⟩
  show (if (call.isWrite && false) = true then 1 else 0) = 0
  rw [Bool.and_false, if_neg Bool.false_ne_true]

variable {call : Call}

lemma Books.waitRead (hb : Books queueLength s) (hx : Reading (s.threads t))
    (hcall : call.isWrite = false) :
    Books queueLength (PortEntry.put
      ({ s with readCondition := s.readCondition ++ [t] }, .waiting call false none) t) := by
  obtain ⟨hw, hp⟩ := hx.indicator_zero
  obtain ⟨hw', hp'⟩ := indicator_waiting call
  rw [hcall, if_neg Bool.false_ne_true] at hw'
  have hcount := tally_update (indicator Thread.isWriter) s.threads t (.waiting call false none)
  have hplace := tally_update (indicator Thread.hasPlace) s.threads t (.waiting call false none)
  have hread : (Thread.waiting call false none).waitsToRead = true := by
    show (!call.isWrite && !false) = _
    rw [hcall]
    rfl
  have hwrites := hb.writes
  have hplaces := hb.places
  refine ⟨⟨hb.queues.readers.append hx.busy.notReading hread, hb.queues.writers.update ?_,
    sound_update hb.queues.sound trivial⟩, hb.reads, ?_, ?_, hb.order⟩
  · rw [waitsToWrite_of_waitsToRead hread, hx.busy.notWriting]
  · show s.writeCount = queueLength - s.messages.length -
      (tally (indicator Thread.isWriter) (update s.threads t (.waiting call false none)) : ℕ)
    omega
  · show s.messages.length +
      tally (indicator Thread.hasPlace) (update s.threads t (.waiting call false none)) ≤
        queueLength
    omega

lemma Books.waitWrite (hb : Books queueLength s) (hx : Reading (s.threads t))
    (hcall : call.isWrite = true) :
    Books queueLength (PortEntry.put
      ({ s with
          writeCount := s.writeCount - 1
          writeCondition := s.writeCondition ++ [t] }, .waiting call false none) t) := by
  obtain ⟨hw, hp⟩ := hx.indicator_zero
  obtain ⟨hw', hp'⟩ := indicator_waiting call
  rw [hcall, if_pos rfl] at hw'
  have hcount := tally_update (indicator Thread.isWriter) s.threads t (.waiting call false none)
  have hplace := tally_update (indicator Thread.hasPlace) s.threads t (.waiting call false none)
  have hwrite : (Thread.waiting call false none).waitsToWrite = true := by
    show (call.isWrite && !false) = _
    rw [hcall]
    rfl
  have hread : (Thread.waiting call false none).waitsToRead = false := by
    show (!call.isWrite && !false) = _
    rw [hcall]
    rfl
  have hwrites := hb.writes
  have hplaces := hb.places
  refine ⟨⟨hb.queues.readers.update (hread.trans hx.busy.notReading.symm),
    hb.queues.writers.append hx.busy.notWriting hwrite,
    sound_update hb.queues.sound trivial⟩, hb.reads, ?_, ?_, hb.order⟩
  · show s.writeCount - 1 = queueLength - s.messages.length -
      (tally (indicator Thread.isWriter) (update s.threads t (.waiting call false none)) : ℕ)
    omega
  · show s.messages.length +
      tally (indicator Thread.hasPlace) (update s.threads t (.waiting call false none)) ≤
        queueLength
    omega

/-- What a writer has that is about to put its message into the queue, or to give up: its place is
counted, be it that it has just taken it or that it has been notified. -/
structure Holding (queueLength : ℕ) (s : PortEntry T) (t : T) : Prop where
  queues : Queues s
  busy : (s.threads t).Busy
  reads : s.readCount = s.messages.length
  writes : s.writeCount + s.messages.length + (tally (indicator Thread.isWriter) s.threads : ℕ) +
    1 = queueLength + (indicator Thread.isWriter (s.threads t) : ℕ)
  order : (s.received ++ s.messages).map Message.content = s.sent

variable {status : Status}

lemma Holding.giveUp (hh : Holding queueLength s t)
    (hplaces : s.messages.length + tally (indicator Thread.hasPlace) s.threads +
      (if s.writeCondition = [] then 0 else 1) ≤
        queueLength + indicator Thread.hasPlace (s.threads t)) :
    Books queueLength (PortEntry.put (s.giveUp status) t) := by
  unfold PortEntry.giveUp
  set given : PortEntry T := { s with writeCount := s.writeCount + 1 }
  have hqueues : Queues given := ⟨hh.queues.readers, hh.queues.writers, hh.queues.sound⟩
  obtain ⟨hq, hsame, hself, htw, htp, hnone⟩ := notifyWriter_spec (t := t) hqueues hh.busy.notWriting
  have hself' : given.notifyWriter.threads t = s.threads t := hself
  have hwrites := hh.writes
  apply books_put hq (by rw [hself']; exact hh.busy) (busy_outside _)
  · rw [hsame.readCount, hsame.messages]
    exact hh.reads
  · rw [hself', hsame.writeCount, hsame.messages, htw]
    show s.writeCount + 1 + s.messages.length +
      (tally (indicator Thread.isWriter) s.threads : ℕ) + (0 : ℕ) = _
    omega
  · have hthreads : given.threads = s.threads := rfl
    have hlist : given.writeCondition = s.writeCondition := rfl
    rw [hthreads] at htp hnone
    rw [hlist] at hnone
    rw [hself', hsame.messages]
    show s.messages.length + _ + 0 ≤ _
    split_ifs at hplaces with hempty
    · rw [hnone hempty]
      exact hplaces
    · omega
  · rw [hsame.received, hsame.messages, hsame.sent]
    exact hh.order

lemma Holding.add (hh : Holding queueLength s t)
    (hplaces : s.messages.length + tally (indicator Thread.hasPlace) s.threads + 1 ≤
      queueLength + indicator Thread.hasPlace (s.threads t)) {code : BitVec 32} {memory : ℕ → Byte}
    (hmemory : input.memory = .ok memory) (hcovered : covered vecs bufferSize) :
    Books queueLength (PortEntry.put (s.writeMessage code vecs bufferSize input) t) := by
  unfold PortEntry.writeMessage
  rw [hmemory]
  dsimp only
  set space := (List.range bufferSize).map memory with hspace
  have hlen : space.length = bufferSize := by
    rw [hspace, List.length_map, List.length_range]
  -- the buffer holds what the vectors say
  have hbuffer : (if 0 < bufferSize then copyVecs space vecs bufferSize else space) =
      vecs.flatten.take bufferSize := by
    rcases hcovered with hzero | ⟨vec, hfirst, hle⟩
    · rw [if_neg (by omega), hzero, List.take_zero]
      rw [hzero] at hlen
      exact List.length_eq_zero_iff.1 hlen
    · by_cases hpos : 0 < bufferSize
      · rw [if_pos hpos]
        exact copyVecs_covered hfirst hle hpos hlen
      · have hzero : bufferSize = 0 := by omega
        rw [if_neg hpos, hzero, List.take_zero]
        rw [hzero] at hlen
        exact List.length_eq_zero_iff.1 hlen
  rw [hbuffer]
  set message : Message := ⟨code, bufferSize, input.credentials, vecs.flatten.take bufferSize⟩
  set added : PortEntry T := { s with
    messages := s.messages ++ [message]
    readCount := s.readCount + 1
    sent := s.sent ++ [(code, vecs.flatten.take bufferSize)] }
  have hqueues : Queues added := ⟨hh.queues.readers, hh.queues.writers, hh.queues.sound⟩
  obtain ⟨hq, hsame, hself, htw, htp⟩ := notifyReader_spec (t := t) hqueues hh.busy.notReading
  have hself' : added.notifyReader.threads t = s.threads t := hself
  have hthreads : added.threads = s.threads := rfl
  have hlength : added.messages.length = s.messages.length + 1 := List.length_append
  rw [hthreads] at htw htp
  have hwrites := hh.writes
  apply books_put hq (by rw [hself']; exact hh.busy) (busy_outside _)
  · rw [hsame.readCount, hsame.messages, hlength]
    show s.readCount + 1 = _
    rw [hh.reads]
  · rw [hself', hsame.writeCount, hsame.messages, htw, hlength]
    show s.writeCount + (s.messages.length + 1 : ℕ) + _ + (0 : ℕ) = _
    omega
  · rw [hself', hsame.messages, htp, hlength]
    show s.messages.length + 1 + _ + 0 ≤ _
    omega
  · rw [hsame.received, hsame.messages, hsame.sent]
    show (s.received ++ (s.messages ++ [message])).map Message.content = s.sent ++ [_]
    rw [← List.append_assoc, List.map_append, hh.order]
    rfl

/-! ## Calls -/

omit [DecidableEq T] in
lemma hasPlace_le (s : PortEntry T) : tally (indicator Thread.hasPlace) s.threads ≤
    tally (indicator Thread.isWriter) s.threads := by
  apply tally_mono
  intro t
  unfold indicator
  cases hx : s.threads t with
  | outside => exact Nat.le_refl _
  | waiting call notified _ =>
    show (if (call.isWrite && notified) = true then 1 else 0) ≤ if call.isWrite = true then 1 else 0
    cases call.isWrite <;> cases notified <;> simp
  | returned call notified _ =>
    show (if (call.isWrite && notified) = true then 1 else 0) ≤ if call.isWrite = true then 1 else 0
    cases call.isWrite <;> cases notified <;> simp

def copies (s : PortEntry T) (bufferSize : ℕ) (limits : Limits) (input : Input) : Prop :=
  ∀ message, s.messages.head? = some message →
    ¬(limits.userCopy = true ∧ 0 < min bufferSize message.size ∧ input.fault = true)

variable {limits : Limits}

lemma Books.readLoop (hb : Books queueLength s) (hx : Reading (s.threads t))
    (hcopies : limits.peekOnly = false → copies s bufferSize limits input) :
    Books queueLength (PortEntry.put (s.readLoop t bufferSize limits input) t) := by
  unfold PortEntry.readLoop
  by_cases hzero : s.readCount = 0
  · rw [if_pos hzero]
    by_cases hwait : limits.noWait = true
    · rw [if_pos hwait]
      exact hb.leave hx _
    · rw [if_neg hwait]
      exact hb.waitRead hx rfl
  · rw [if_neg hzero]
    cases hm : s.messages with
    | nil => exact hb.leave hx _
    | cons message messages =>
      dsimp only
      by_cases hpeek : limits.peekOnly = true
      · rw [if_pos hpeek]
        exact hb.peek hx _
      · rw [if_neg hpeek]
        have hcopy := hcopies (Bool.not_eq_true _ ▸ hpeek) message (by rw [hm]; rfl)
        have hfault : (limits.userCopy && decide (0 < min bufferSize message.size) &&
            input.fault) = false := by
          rw [← Bool.not_eq_true]
          intro hf
          rw [Bool.and_eq_true, Bool.and_eq_true] at hf
          exact hcopy ⟨hf.1.1, of_decide_eq_true hf.1.2, hf.2⟩
        rw [hfault, if_neg Bool.false_ne_true, if_neg Bool.false_ne_true]
        exact hb.take hx hm _

lemma Books.infoLoop (hb : Books queueLength s) (hx : Reading (s.threads t)) :
    Books queueLength (PortEntry.put (s.infoLoop t limits) t) := by
  unfold PortEntry.infoLoop
  by_cases hzero : s.readCount = 0
  · rw [if_pos hzero]
    by_cases hwait : limits.noWait = true
    · rw [if_pos hwait]
      exact hb.leave hx _
    · rw [if_neg hwait]
      exact hb.waitRead hx rfl
  · rw [if_neg hzero]
    cases s.messages with
    | nil => exact hb.leave hx _
    | cons message messages => exact hb.peek hx _

lemma Holding.writeMessage (hh : Holding queueLength s t)
    (hplaces : s.messages.length + tally (indicator Thread.hasPlace) s.threads + 1 ≤
      queueLength + indicator Thread.hasPlace (s.threads t)) {code : BitVec 32}
    (hcovered : ∀ memory, input.memory = .ok memory → covered vecs bufferSize) :
    Books queueLength (PortEntry.put (s.writeMessage code vecs bufferSize input) t) := by
  cases hm : input.memory with
  | error status =>
    unfold PortEntry.writeMessage
    rw [hm]
    apply hh.giveUp
    split_ifs
    · omega
    · exact hplaces
  | ok memory => exact hh.add hplaces hm (hcovered memory hm)

lemma Books.write (hb : Books queueLength s) (hx : Reading (s.threads t)) {code : BitVec 32}
    (hcovered : 0 < s.writeCount → ∀ memory, input.memory = .ok memory →
      covered vecs bufferSize) :
    Books queueLength (PortEntry.put (s.write t code vecs bufferSize limits input) t) := by
  unfold PortEntry.write
  split_ifs with hsize hport hcount hwait
  · exact hb.leave hx _
  · exact hb.leave hx _
  · exact hb.leave hx _
  · exact hb.waitWrite hx rfl
  · obtain ⟨hw, hp⟩ := hx.indicator_zero
    have hwrites := hb.writes
    have hle := hasPlace_le s
    have hh : Holding queueLength { s with writeCount := s.writeCount - 1 } t := by
      refine ⟨⟨hb.queues.readers, hb.queues.writers, hb.queues.sound⟩, hx.busy, hb.reads, ?_,
        hb.order⟩
      show s.writeCount - 1 + s.messages.length +
        (tally (indicator Thread.isWriter) s.threads : ℕ) + 1 =
        (queueLength : ℤ) + (indicator Thread.isWriter (s.threads t) : ℕ)
      omega
    apply hh.writeMessage _ (hcovered (by omega))
    show s.messages.length + _ + 1 ≤ queueLength + indicator Thread.hasPlace (s.threads t)
    have hthreads : ({ s with writeCount := s.writeCount - 1 } : PortEntry T).threads =
      s.threads := rfl
    rw [hthreads]
    omega

/-! ## The condition -/

/-- The condition under which a section keeps the books: a writer with a place has a first vector
that fills its message, a writer that gives up without having been notified leaves no other one
waiting, and a reader that takes a message can copy it. -/
def Met (s : PortEntry T) : Action T → Prop
  | .begin _ call input =>
    match call with
    | .read bufferSize limits =>
      limits.peekOnly = false → copies s bufferSize limits input
    | .info _ => True
    | .write _ vecs bufferSize _ =>
      0 < s.writeCount → ∀ memory, input.memory = .ok memory → covered vecs bufferSize
  | .resume t input =>
    match s.threads t with
    | .returned (.read bufferSize limits) _ .ok =>
      limits.peekOnly = false → copies s bufferSize limits input
    | .returned (.write _ vecs bufferSize _) notified status =>
      if status = .ok then ∀ memory, input.memory = .ok memory → covered vecs bufferSize
      else notified = true ∨ s.writeCondition = []
    | _ => True
  | _ => True

lemma Books.begin (hb : Books queueLength s) {result : Result}
    (hx : s.threads t = .outside result) (hmet : Met s (.begin t call input)) :
    Books queueLength (PortEntry.put (s.begin t input call) t) := by
  have hreading : Reading (s.threads t) := by
    rw [hx]
    exact ⟨busy_outside result, rfl, rfl⟩
  unfold PortEntry.begin
  cases call with
  | read bufferSize limits =>
    dsimp only
    split_ifs
    · exact hb.leave hreading _
    · exact hb.leave hreading _
    · exact hb.readLoop hreading hmet
  | info limits =>
    dsimp only
    split_ifs
    · exact hb.leave hreading _
    · exact hb.infoLoop hreading
  | write code vecs bufferSize limits => exact hb.write hreading hmet

variable {notified : Bool}

lemma reading_returned (hcall : call.isWrite = false)
    (hsound : (Thread.returned call notified status).sound) :
    Reading (.returned call notified status) := by
  refine ⟨⟨rfl, rfl, hsound⟩, hcall, ?_⟩
  show (call.isWrite && notified) = false
  rw [hcall]
  rfl

lemma Books.resume (hb : Books queueLength s) (hopen : s.alive = true ∧ s.isPortClosed = false)
    (hx : s.threads t = .returned call notified status) (hmet : Met s (.resume t input)) :
    Books queueLength (PortEntry.put (s.resume t input status call) t) := by
  have hsound := hb.queues.sound t
  rw [hx] at hsound
  dsimp only [Met] at hmet
  rw [hx] at hmet
  unfold PortEntry.resume
  cases call with
  | read bufferSize limits =>
    have hreading : Reading (s.threads t) := by
      rw [hx]
      exact reading_returned rfl hsound
    dsimp only
    split_ifs with hgone hok
    · exact hb.leave hreading _
    · exact hb.leave hreading _
    · rw [not_not.1 hok] at hmet
      exact hb.readLoop hreading hmet
  | info limits =>
    have hreading : Reading (s.threads t) := by
      rw [hx]
      exact reading_returned rfl hsound
    dsimp only
    split_ifs
    · exact hb.leave hreading _
    · exact hb.leave hreading _
    · exact hb.infoLoop hreading
  | write code vecs bufferSize limits =>
    have hwriter : indicator Thread.isWriter (s.threads t) = 1 := by
      rw [hx]
      rfl
    have hplace : indicator Thread.hasPlace (s.threads t) = if notified then 1 else 0 := by
      rw [hx]
      rfl
    have hwrites := hb.writes
    have hplaces := hb.places
    have hh : Holding queueLength s t :=
      ⟨hb.queues, by rw [hx]; exact ⟨rfl, rfl, hsound⟩, hb.reads, by omega, hb.order⟩
    have hnotGone : ¬((!s.alive || s.isPortClosed) = true) := by
      rw [hopen.1, hopen.2]
      exact Bool.false_ne_true
    dsimp only at hmet ⊢
    rw [if_neg hnotGone]
    by_cases hok : status = .ok
    · -- a notification is a place
      rw [hok] at hsound
      have hnotified : notified = true := hsound
      rw [hnotified, if_pos rfl] at hplace
      rw [if_pos hok] at hmet
      rw [if_neg (not_not.2 hok)]
      exact hh.writeMessage (by omega) hmet
    · rw [if_neg hok] at hmet
      rw [if_pos hok]
      apply hh.giveUp
      rcases hmet with hnotified | hempty
      · rw [hnotified, if_pos rfl] at hplace
        split_ifs <;> omega
      · rw [if_pos hempty]
        omega

/-! ## The ends of waits -/

lemma Books.unblock (hb : Books queueLength s) (hx : s.threads t = .waiting call notified none)
    (hstatus : status ≠ .ok) :
    Books queueLength (PortEntry.put (s, .waiting call notified (some status)) t) := by
  have hw := tally_update (indicator Thread.isWriter) s.threads t
    (.waiting call notified (some status))
  have hp := tally_update (indicator Thread.hasPlace) s.threads t
    (.waiting call notified (some status))
  rw [hx] at hw hp
  have hwriters : tally (indicator Thread.isWriter) (update s.threads t
      (.waiting call notified (some status))) = tally (indicator Thread.isWriter) s.threads :=
    Nat.add_right_cancel hw
  have hplaces : tally (indicator Thread.hasPlace) (update s.threads t
      (.waiting call notified (some status))) = tally (indicator Thread.hasPlace) s.threads :=
    Nat.add_right_cancel hp
  refine ⟨⟨hb.queues.readers.update (by rw [hx]; rfl), hb.queues.writers.update (by rw [hx]; rfl),
    sound_update hb.queues.sound ?_⟩, hb.reads, ?_, ?_, hb.order⟩
  · cases status <;> first | exact absurd rfl hstatus | trivial
  · show s.writeCount = queueLength - s.messages.length -
      (tally (indicator Thread.isWriter) (update s.threads t
        (.waiting call notified (some status))) : ℕ)
    rw [hwriters]
    exact hb.writes
  · show s.messages.length + tally (indicator Thread.hasPlace) (update s.threads t
      (.waiting call notified (some status))) ≤ queueLength
    rw [hplaces]
    exact hb.places

lemma Books.unlist (hb : Books queueLength s)
    (hx : s.threads t = .waiting call notified (some status)) :
    Books queueLength (PortEntry.put
      ({ s with
          readCondition := s.readCondition.erase t
          writeCondition := s.writeCondition.erase t }, .returned call notified status) t) := by
  have hw := tally_update (indicator Thread.isWriter) s.threads t (.returned call notified status)
  have hp := tally_update (indicator Thread.hasPlace) s.threads t (.returned call notified status)
  have hsound := hb.queues.sound t
  rw [hx] at hw hp hsound
  have hwriters : tally (indicator Thread.isWriter) (update s.threads t
      (.returned call notified status)) = tally (indicator Thread.isWriter) s.threads :=
    Nat.add_right_cancel hw
  have hplaces : tally (indicator Thread.hasPlace) (update s.threads t
      (.returned call notified status)) = tally (indicator Thread.hasPlace) s.threads :=
    Nat.add_right_cancel hp
  refine ⟨⟨hb.queues.readers.erase rfl, hb.queues.writers.erase rfl,
    sound_update hb.queues.sound ?_⟩, hb.reads, ?_, ?_, hb.order⟩
  · cases status <;> exact hsound
  · show s.writeCount = queueLength - s.messages.length -
      (tally (indicator Thread.isWriter) (update s.threads t
        (.returned call notified status)) : ℕ)
    rw [hwriters]
    exact hb.writes
  · show s.messages.length + tally (indicator Thread.hasPlace) (update s.threads t
      (.returned call notified status)) ≤ queueLength
    rw [hplaces]
    exact hb.places

/-! ## Runs -/

end

section

variable {T : Type} [DecidableEq T] {s s' : PortEntry T} {t : T} {input : Input}

/-- Whether a port is neither closed nor deleted only depends on this. -/
def PortEntry.key (s : PortEntry T) : Bool × ℕ := (s.alive, s.capacity)

lemma key_notifyReader (s : PortEntry T) : s.notifyReader.key = s.key := by
  unfold PortEntry.notifyReader
  cases s.readCondition <;> rfl

lemma key_notifyWriter (s : PortEntry T) : s.notifyWriter.key = s.key := by
  unfold PortEntry.notifyWriter
  cases s.writeCondition <;> rfl

lemma key_readLoop (bufferSize : ℕ) (limits : Limits) :
    (s.readLoop t bufferSize limits input).1.key = s.key := by
  unfold PortEntry.readLoop
  by_cases hzero : s.readCount = 0
  · rw [if_pos hzero]
    split_ifs <;> rfl
  · rw [if_neg hzero]
    cases s.messages with
    | nil => rfl
    | cons message messages =>
      dsimp only
      by_cases hpeek : limits.peekOnly = true
      · rw [if_pos hpeek]
        exact key_notifyReader s
      · rw [if_neg hpeek]
        exact key_notifyWriter _

lemma key_infoLoop (limits : Limits) : (s.infoLoop t limits).1.key = s.key := by
  unfold PortEntry.infoLoop
  split_ifs
  · rfl
  · rfl
  · cases s.messages with
    | nil => rfl
    | cons message messages => exact key_notifyReader s

lemma key_writeMessage (code : BitVec 32) (vecs : List (List Byte)) (bufferSize : ℕ) :
    (s.writeMessage code vecs bufferSize input).1.key = s.key := by
  unfold PortEntry.writeMessage
  cases input.memory with
  | error status => exact key_notifyWriter _
  | ok memory => exact key_notifyReader _

lemma key_begin (call : Call) : (s.begin t input call).1.key = s.key := by
  unfold PortEntry.begin
  cases call with
  | read bufferSize limits =>
    dsimp only
    split_ifs
    · rfl
    · rfl
    · exact key_readLoop bufferSize limits
  | info limits =>
    dsimp only
    split_ifs
    · rfl
    · exact key_infoLoop limits
  | write code vecs bufferSize limits =>
    dsimp only [PortEntry.write]
    split_ifs
    all_goals first | rfl | exact key_writeMessage code vecs bufferSize

lemma key_resume (status : Status) (call : Call) :
    (s.resume t input status call).1.key = s.key := by
  unfold PortEntry.resume
  cases call with
  | read bufferSize limits =>
    dsimp only
    split_ifs
    · rfl
    · rfl
    · exact key_readLoop bufferSize limits
  | info limits =>
    dsimp only
    split_ifs
    · rfl
    · rfl
    · exact key_infoLoop limits
  | write code vecs bufferSize limits =>
    dsimp only
    split_ifs
    · rfl
    · exact key_notifyWriter _
    · exact key_writeMessage code vecs bufferSize

def PortEntry.isOpen (s : PortEntry T) : Prop := s.alive = true ∧ s.isPortClosed = false

omit [DecidableEq T] in
lemma isOpen_of_key (h : s'.key = s.key) (ho : s'.isOpen) : s.isOpen := by
  have halive : s'.alive = s.alive := congrArg Prod.fst h
  have hcap : s'.capacity = s.capacity := congrArg Prod.snd h
  refine ⟨halive ▸ ho.1, ?_⟩
  have hclosed := ho.2
  unfold PortEntry.isPortClosed at hclosed ⊢
  rw [← hcap]
  exact hclosed

variable [Fintype T] {queueLength : ℕ}

def PortEntry.Inv (queueLength : ℕ) (s : PortEntry T) : Prop := s.isOpen → Books queueLength s

lemma PortEntry.Inv.step {a : Action T} (hs : s.Inv queueLength) (hmet : Met s a)
    (h : Queue.step s a = some s') : s'.Inv queueLength := by
  intro hopen
  cases a with
  | begin t call input =>
    obtain ⟨r, hr, rfl⟩ := Option.map_eq_some_iff.1 h
    cases hx : s.threads t with
    | outside result =>
      rw [hx] at hr
      cases hr
      exact (hs (isOpen_of_key (key_begin call) hopen)).begin hx hmet
    | waiting call notified unblocked => rw [hx] at hr; cases unblocked <;> cases hr
    | returned => rw [hx] at hr; cases hr
  | resume t input =>
    obtain ⟨r, hr, rfl⟩ := Option.map_eq_some_iff.1 h
    cases hx : s.threads t with
    | outside => rw [hx] at hr; cases hr
    | waiting call notified unblocked => rw [hx] at hr; cases unblocked <;> cases hr
    | returned call notified status =>
      rw [hx] at hr
      cases hr
      have hbefore := isOpen_of_key (key_resume status call) hopen
      exact (hs hbefore).resume hbefore hx hmet
  | unblock t status =>
    obtain ⟨r, hr, rfl⟩ := Option.map_eq_some_iff.1 h
    cases hx : s.threads t with
    | outside => rw [hx] at hr; cases hr
    | returned => rw [hx] at hr; cases hr
    | waiting call notified unblocked =>
      rw [hx] at hr
      cases unblocked with
      | some _ => cases hr
      | none =>
        unfold PortEntry.act at hr
        dsimp only at hr
        split_ifs at hr with hallows
        cases hr
        have hne : status ≠ .ok := by
          intro he
          rw [he] at hallows
          cases hallows
        exact (hs (isOpen_of_key rfl hopen)).unblock hx hne
  | unlist t =>
    obtain ⟨r, hr, rfl⟩ := Option.map_eq_some_iff.1 h
    cases hx : s.threads t with
    | outside => rw [hx] at hr; cases hr
    | returned => rw [hx] at hr; cases hr
    | waiting call notified unblocked =>
      rw [hx] at hr
      cases unblocked with
      | none => cases hr
      | some status =>
        cases hr
        exact (hs (isOpen_of_key rfl hopen)).unlist hx
  | close =>
    cases h
    unfold PortEntry.closePort at hopen ⊢
    split_ifs at hopen ⊢ with halive
    · exact hs hopen
    · cases hopen.2
  | delete =>
    cases h
    unfold PortEntry.deletePort at hopen ⊢
    split_ifs at hopen ⊢ with halive
    · exact hs hopen
    · cases hopen.1

/-- What is expected of a port that is neither closed nor deleted: its queue is bounded,
`read_count` counts it, `write_count` is the number of places less those of the messages and of the
writers that wait or hold a place, and reads return what writes have sent, in this order. -/
structure PortEntry.Right (queueLength : ℕ) (s : PortEntry T) : Prop where
  bounded : s.messages.length ≤ queueLength
  readCount : s.readCount = s.messages.length
  writeCount : s.writeCount = queueLength - s.messages.length -
    (tally (indicator Thread.isWriter) s.threads : ℕ)
  order : s.received.map Message.content <+: s.sent
  queued : s.sent.drop s.received.length = s.messages.map Message.content

omit [DecidableEq T] in
lemma Books.right (hb : Books queueLength s) : s.Right queueLength := by
  have horder := hb.order
  rw [List.map_append] at horder
  refine ⟨Nat.le_of_add_right_le hb.places, hb.reads, hb.writes, ⟨_, horder⟩, ?_⟩
  rw [← horder, List.drop_left' (List.length_map _)]

omit [DecidableEq T] in
lemma books_create (h : PortEntry.create T queueLength = some s) : Books queueLength s := by
  unfold PortEntry.create at h
  split_ifs at h
  cases h
  have hnone : ∀ f : Thread → ℕ, f (.outside (.status .ok)) = 0 →
      tally f (fun _ : T => Thread.outside (.status .ok)) = 0 := fun f hf =>
    tally_eq_zero.2 fun _ => hf
  refine ⟨⟨.nil fun _ => rfl, .nil fun _ => rfl, fun _ => trivial⟩, rfl, ?_, ?_, rfl⟩
  · show (queueLength : ℤ) = queueLength - (0 : ℕ) -
      (tally (indicator Thread.isWriter) (fun _ : T => Thread.outside (.status .ok)) : ℕ)
    rw [hnone _ rfl]
    omega
  · show 0 + tally (indicator Thread.hasPlace) (fun _ : T => Thread.outside (.status .ok)) ≤ _
    rw [hnone _ rfl]
    omega

end

def plainInput : Input := ⟨.ok fun _ => 0, ⟨0, 0, 0⟩, false⟩

def emptyWrite : Call := .write 0 [] 0 ⟨bAbsoluteTimeout, 0⟩

def narrowPort : PortEntry (Fin 3) :=
  ⟨true, 1, 0, 1, 0, [], [], [], fun _ => .outside (.status .ok), [], []⟩

end Haiku.Port.Queue
