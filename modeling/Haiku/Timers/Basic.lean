import Haiku.Lib.Run
import Mathlib.Algebra.Order.Ring.Int

/-!
# Kernel timers

Each CPU has a list of events. `timer_interrupt()` takes those that are due off the list of its CPU,
one by one, and gives up the lock of the list while it calls the hook of an event. `add_timer()` and
`cancel_timer()` are called by threads and by hooks, with interrupts disabled: until such a call
returns there is no timer interrupt on its CPU.

A section under the lock of a CPU is one step, and so are the start of a hook, its end, and each
look of `cancel_timer()` at what other CPUs may change.
-/

namespace Haiku.Timers

open Function Lib

section

def B_ONE_SHOT_ABSOLUTE_TIMER : BitVec 32 := 1
def B_ONE_SHOT_RELATIVE_TIMER : BitVec 32 := 2
def B_PERIODIC_TIMER : BitVec 32 := 3
def B_TIMER_ACQUIRE_THREAD_LOCK : BitVec 32 := 0x8000
def B_TIMER_FLAGS : BitVec 32 := B_TIMER_ACQUIRE_THREAD_LOCK

def bigtime (t : ℤ) : ℤ := t.bmod (2 ^ 64)

def periodic (mode : BitVec 32) : Bool := mode &&& ~~~B_TIMER_FLAGS == B_PERIODIC_TIMER

def acquires (mode : BitVec 32) : Bool := mode &&& B_TIMER_ACQUIRE_THREAD_LOCK != 0

/-- A `timer`. The hook is its address; `cpu` is none for all numbers from `B_MAX_CPU_COUNT` on. -/
structure Timer (C : Type) where
  scheduleTime : ℤ
  flags : BitVec 16
  cpu : Option C
  hook : ℕ
  period : ℤ

/-- The flags as an `int` -/
def Timer.mode {C : Type} (event : Timer C) : BitVec 32 := event.flags.setWidth 32

/-- A `per_cpu_timer_data` -/
structure PerCPU (T : Type) where
  events : List T
  currentEvent : Option T
  currentEventInProgress : Bool

inductive Stage
  /-- The event has been taken off the list. -/
  | taken
  /-- The hook is running. -/
  | running
  /-- The hook has returned, or has not been called. -/
  | ended
deriving DecidableEq

/-- What `timer_interrupt()` is doing; `add` is the number of the `add_timer()` that is the reason
for it. -/
structure Firing (T : Type) where
  event : T
  mode : BitVec 32
  add : ℕ
  stage : Stage

inductive Call (T C : Type)
  /-- `cpu = event->cpu` -/
  | read (event : T)
  /-- `spinLocker.SetTo(sPerCPU[cpu].lock, false)` -/
  | lock (event : T) (cpu : C)
  /-- `while (cpuData.current_event_in_progress == 1)` -/
  | poll (event : T) (cpu : C)
deriving DecidableEq

/-- The timers, the CPUs with what runs on them, and the CPU that holds the thread lock; how often
each timer has been added, how often its hook has been started for each time as a one-shot timer,
and whether it has been cancelled since -/
structure System (T C : Type) where
  timers : T → Timer C
  cpus : C → PerCPU T
  interrupts : C → Option (Firing T)
  calls : C → Option (Call T C)
  threadLock : Option C
  adds : T → ℕ
  starts : T → ℕ → ℕ
  cancelled : T → Bool

variable {T C : Type}

def System.init (timers : T → Timer C) : System T C :=
  ⟨timers, fun _ => ⟨[], none, false⟩, fun _ => none, fun _ => none, none, fun _ => 0,
    fun _ _ => 0, fun _ => false⟩

def addEventToList (time : T → ℤ) (event : T) : List T → List T
  | [] => [event]
  | next :: rest =>
    if time event ≤ time next then event :: next :: rest
    else next :: addEventToList time event rest

inductive Input (T : Type)
  | add (event : T) (hook : ℕ) (period : ℤ) (flags : BitVec 32) (now : ℤ)
  /-- begins a `cancel_timer()` -/
  | cancel (event : T)
  /-- the next step of a `cancel_timer()` -/
  | go
  /-- begins a `timer_interrupt()` -/
  | interrupt (now : ℤ)
  /-- starts the hook -/
  | start
  /-- ends the hook -/
  | finish
  /-- the section after the hook -/
  | next (now later : ℤ)
  | grabThreadLock
  | releaseThreadLock

/-- Whether the hook of a timer is running below what a CPU does -/
def System.inHook [DecidableEq T] (s : System T C) (c : C) (event : T) : Bool :=
  (s.interrupts c).any fun f => f.event = event && f.stage = .running

def System.callable (s : System T C) (c : C) : Bool :=
  (s.calls c).isNone && (s.interrupts c).all fun f => f.stage = .running

variable [DecidableEq T] [DecidableEq C]

def System.setTimer (s : System T C) (event : T) (timer : Timer C) : System T C :=
  { s with timers := update s.timers event timer }

def System.setCPU (s : System T C) (c : C) (cpu : PerCPU T) : System T C :=
  { s with cpus := update s.cpus c cpu }

def System.setInterrupt (s : System T C) (c : C) (firing : Option (Firing T)) : System T C :=
  { s with interrupts := update s.interrupts c firing }

def System.setCall (s : System T C) (c : C) (call : Option (Call T C)) : System T C :=
  { s with calls := update s.calls c call }

def System.enlist (s : System T C) (c : C) (event : T) : System T C :=
  s.setCPU c { s.cpus c with
    events := addEventToList (fun e => (s.timers e).scheduleTime) event (s.cpus c).events }

/-! ## `timer_interrupt()` -/

def System.fetch (s : System T C) (c : C) (now : ℤ) : System T C :=
  match (s.cpus c).events with
  | [] => s
  | event :: rest =>
    let timer := s.timers event
    if timer.scheduleTime < bigtime now then
      ((s.setCPU c ⟨rest, some event, true⟩).setTimer event { timer with scheduleTime := 0 })
        |>.setInterrupt c (some ⟨event, timer.mode, s.adds event, .taken⟩)
    else s

def System.skip (s : System T C) (c : C) (f : Firing T) : System T C :=
  (s.setCPU c { s.cpus c with currentEventInProgress := false }).setInterrupt c
    (some { f with stage := .ended })

def System.call (s : System T C) (c : C) (f : Firing T) : System T C :=
  let counted := if periodic f.mode then s.starts else
    update s.starts f.event
      (update (s.starts f.event) f.add (s.starts f.event f.add + 1))
  { s with starts := counted }.setInterrupt c (some { f with stage := .running })

def System.start (s : System T C) (c : C) (f : Firing T) : Option (System T C) :=
  if (s.timers f.event).hook = 0 then some (s.skip c f)
  else if acquires f.mode then
    -- GRAB_THREAD_LOCK()
    if s.threadLock.isSome then none
    -- the event has been cancelled in the meantime
    else if (s.cpus c).currentEvent.isNone then some (s.skip c f)
    else some ({ s with threadLock := some c }.call c f)
  else some (s.call c f)

def System.finish (s : System T C) (c : C) (f : Firing T) : Option (System T C) :=
  if acquires f.mode then some ({ s with threadLock := none }.skip c f)
  else if s.threadLock = some c then none
  else some (s.skip c f)

def System.reschedule (s : System T C) (c : C) (f : Firing T) (now : ℤ) : System T C :=
  let timer := s.timers f.event
  let added := if periodic f.mode && (s.cpus c).currentEvent.isSome then
      let scheduleTime := bigtime (now + timer.period)
      (s.setTimer f.event { timer with
        scheduleTime := if scheduleTime = 0 then 1 else scheduleTime }).enlist c f.event
    else s
  (added.setCPU c { added.cpus c with currentEvent := none }).setInterrupt c none

/-! ## `add_timer()` -/

def System.addTimer (s : System T C) (c : C) (event : T) (hook : ℕ) (period : ℤ)
    (flags : BitVec 32) (now : ℤ) : System T C :=
  if hook = 0 ∨ period < 0 then s
  else
    let time := if flags &&& ~~~B_TIMER_FLAGS ≠ B_ONE_SHOT_ABSOLUTE_TIMER then
      bigtime (period + now) else bigtime period
    let scheduleTime := if time = 0 then 1 else time
    let set := s.setTimer event ⟨scheduleTime, flags.setWidth 16, some c, hook, period⟩
    { set.enlist c event with
      adds := update s.adds event (s.adds event + 1)
      cancelled := update s.cancelled event false }

/-! ## `cancel_timer()` -/

/-- `cancel_timer()` returns. It has cancelled the timer when it has been called outside of the hook,
and with the thread lock held if the timer acquires it. -/
def System.leave (s : System T C) (c : C) (event : T) : System T C :=
  let counts := !s.inHook c event &&
    (!acquires (s.timers event).mode || s.threadLock = some c)
  { s.setCall c none with
    cancelled := update s.cancelled event (s.cancelled event || counts) }

/-- The section under the lock of the CPU of the event -/
def System.cancelTimer (s : System T C) (c : C) (event : T) (cpu : C) : System T C :=
  let cpuData := s.cpus cpu
  if cpuData.currentEvent ≠ some event then
    if event ∈ cpuData.events then
      ((s.setCPU cpu { cpuData with events := cpuData.events.erase event }).setTimer event
        { s.timers event with cpu := none }).leave c event
    -- a one-shot timer that has already fired
    else s.leave c event
  else
    let cleared := s.setCPU cpu { cpuData with currentEvent := none }
    if !acquires (s.timers event).mode || cpu = c then cleared.setCall c (some (.poll event cpu))
    else cleared.leave c event

def System.go (s : System T C) (c : C) : Call T C → System T C
  | .read event =>
    match (s.timers event).cpu with
    | none => s.leave c event
    | some cpu => s.setCall c (some (.lock event cpu))
  | .lock event cpu =>
    if (s.timers event).cpu = some cpu then s.cancelTimer c event cpu
    -- cpu field changed while we were trying to lock
    else s.setCall c (some (.read event))
  | .poll event cpu =>
    if (s.cpus cpu).currentEventInProgress then s else s.leave c event

/-! ## Steps -/

def step (s : System T C) (a : C × Input T) : Option (System T C) :=
  match a.2 with
  | .add event hook period flags now =>
    if s.callable a.1 then some (s.addTimer a.1 event hook period flags now) else none
  | .cancel event => if s.callable a.1 then some (s.setCall a.1 (some (.read event))) else none
  | .go => (s.calls a.1).map (s.go a.1)
  | .interrupt now =>
    if (s.calls a.1).isNone ∧ (s.interrupts a.1).isNone ∧ s.threadLock ≠ some a.1 then
      some (s.fetch a.1 now)
    else none
  | .start => (s.interrupts a.1).bind fun f =>
    if (s.calls a.1).isNone ∧ f.stage = .taken then s.start a.1 f else none
  | .finish => (s.interrupts a.1).bind fun f =>
    if (s.calls a.1).isNone ∧ f.stage = .running then s.finish a.1 f else none
  | .next now later => (s.interrupts a.1).bind fun f =>
    if (s.calls a.1).isNone ∧ f.stage = .ended then
      some ((s.reschedule a.1 f now).fetch a.1 later)
    else none
  | .grabThreadLock =>
    if s.callable a.1 ∧ s.threadLock.isNone then some { s with threadLock := some a.1 } else none
  | .releaseThreadLock =>
    -- not the lock that timer_interrupt() has acquired for the hook
    if s.callable a.1 ∧ s.threadLock = some a.1 ∧ (s.interrupts a.1).all (!acquires ·.mode) then
      some { s with threadLock := none }
    else none

end

/-!
## Invariants of the timers

A timer is in the list of the CPU it has been added on, or `timer_interrupt()` of that CPU has taken
it off. The latter may still be so when the timer is added again; the number of the `add_timer()`
tells the two apart.
-/

variable {T C : Type} [DecidableEq T] [DecidableEq C]

/-! ## What is to be shown -/

/-- The list of each CPU is sorted and has no event twice. A one-shot hook starts once at most for
each `add_timer()`. A hook that has been cancelled is not running, and does not start until the
timer is added again. No `cancel_timer()` waits for a hook below it. -/
structure System.Right (s : System T C) : Prop where
  sorted : ∀ k, (s.cpus k).events.Pairwise fun a b =>
    (s.timers a).scheduleTime ≤ (s.timers b).scheduleTime
  nodup : ∀ k, (s.cpus k).events.Nodup
  oneShot : ∀ event add, s.starts event add ≤ 1
  cancelled : ∀ event, s.cancelled event = true → ∀ k, s.inHook k event = false
  polls : ∀ c event, s.calls c = some (.poll event c) → ∀ event', s.inHook c event' = false

def Proper (s : System T C) (a : C × Input T) : Prop :=
  match a.2 with
  | .add event .. => ∀ k, event ∉ (s.cpus k).events
  | _ => True

/-- Whether the next step of a `cancel_timer()` takes the timer off the list of its CPU, or finds
that it is in none -/
def System.decides (s : System T C) : Call T C → Option T
  | .read event => if (s.timers event).cpu.isNone then some event else none
  | .lock event cpu => if (s.timers event).cpu = some cpu then some event else none
  | .poll .. => none

/-- A `timer_interrupt()` with a timer is no obstacle to its being cancelled: either the section
finds the timer as the current event, which has not been added again, or the hook will not be
called because the timer has been cancelled before. -/
def System.Stoppable (s : System T C) (k : C) (f : Firing T) : Prop :=
  ((s.timers f.event).cpu = some k ∧ (s.cpus k).currentEvent = some f.event) ∨
    f.stage = .ended ∨
    (f.stage = .taken ∧ acquires f.mode = true ∧ (s.cpus k).currentEvent = none)

/-- When a `cancel_timer()` on `c` may decide: the timer is not the current event of `c`, and, for a
caller that relies on it, every `timer_interrupt()` that is busy with the timer can be stopped. -/
structure System.MayCancel (s : System T C) (c : C) (event : T) : Prop where
  self : (s.timers event).cpu = some c → (s.cpus c).currentEvent ≠ some event
  firings : s.inHook c event = false →
    (acquires (s.timers event).mode = true → s.threadLock = some c) →
      ∀ k f, s.interrupts k = some f → f.event = event → s.Stoppable k f
  listed : s.inHook c event = false →
    (acquires (s.timers event).mode = true → s.threadLock = some c) →
      ∀ k, (s.timers event).cpu = some k → (s.cpus k).currentEvent = some event →
        event ∉ (s.cpus k).events

/-- When a timer may be added: no `timer_interrupt()` will add it to the list because it is
periodic, and no `cancel_timer()` from outside of its hook waits for the hook to end. -/
structure System.MayAdd (s : System T C) (event : T) : Prop where
  firings : ∀ k f, s.interrupts k = some f → f.event = event → periodic f.mode = true →
    (s.cpus k).currentEvent ≠ some event
  polls : ∀ c k, s.calls c = some (.poll event k) → s.inHook c event = true

def Meets (s : System T C) (a : C × Input T) : Prop :=
  match a.2 with
  | .add event .. => s.MayAdd event
  | .go => ∀ call event, s.calls a.1 = some call → s.decides call = some event →
    s.MayCancel a.1 event
  | _ => True

/-! ## Invariants -/

/-- The hook of a timer will not be called, but perhaps by the `timer_interrupt()` of the CPU
`except`. -/
structure System.Dead (s : System T C) (event : T) (except : Option C) : Prop where
  unlisted : ∀ k, event ∉ (s.cpus k).events
  running : ∀ k f, s.interrupts k = some f → f.event = event → f.stage = .running →
    except = some k
  taken : ∀ k f, s.interrupts k = some f → f.event = event → f.stage = .taken →
    except = some k ∨ (acquires f.mode = true ∧ (s.cpus k).currentEvent = none)
  again : ∀ k f, s.interrupts k = some f → f.event = event → periodic f.mode = true →
    (s.cpus k).currentEvent = none

structure System.Lists (s : System T C) : Prop where
  listed : ∀ k event, event ∈ (s.cpus k).events → (s.timers event).cpu = some k
  nodup : ∀ k, (s.cpus k).events.Nodup
  sorted : ∀ k, (s.cpus k).events.Pairwise fun a b =>
    (s.timers a).scheduleTime ≤ (s.timers b).scheduleTime

structure System.Firings (s : System T C) : Prop where
  current : ∀ k event, (s.cpus k).currentEvent = some event →
    ∃ f, s.interrupts k = some f ∧ f.event = event
  progress : ∀ k f, s.interrupts k = some f → f.stage ≠ .ended →
    (s.cpus k).currentEventInProgress = true
  bound : ∀ k f, s.interrupts k = some f → f.add ≤ s.adds f.event
  last : ∀ k f, s.interrupts k = some f → f.add = s.adds f.event →
    (s.timers f.event).cpu = some k ∧ f.mode = (s.timers f.event).mode ∧
      ∀ j, f.event ∉ (s.cpus j).events
  distinct : ∀ k k' f f', s.interrupts k = some f → s.interrupts k' = some f' →
    f.event = f'.event → f.add = f'.add → k = k'
  periodic : ∀ k f, s.interrupts k = some f → periodic f.mode = true →
    (s.cpus k).currentEvent = some f.event → f.add = s.adds f.event
  again : ∀ k f, s.interrupts k = some f → (s.cpus k).currentEvent = some f.event →
    (s.timers f.event).cpu = some k → f.add = s.adds f.event ∨ f.event ∈ (s.cpus k).events
  locked : ∀ k f, s.interrupts k = some f → f.stage = .running → acquires f.mode = true →
    s.threadLock = some k

structure System.Starts (s : System T C) : Prop where
  never : ∀ event add, s.adds event < add → s.starts event add = 0
  listed : ∀ k event, event ∈ (s.cpus k).events → periodic (s.timers event).mode = false →
    s.starts event (s.adds event) = 0
  taken : ∀ k f, s.interrupts k = some f → f.stage = .taken → periodic f.mode = false →
    s.starts f.event f.add = 0
  once : ∀ event add, s.starts event add ≤ 1

structure System.Cancels (s : System T C) : Prop where
  dead : ∀ event, s.cancelled event = true → s.Dead event none
  polls : ∀ c event k, s.calls c = some (.poll event k) → k ≠ c ∧
    (s.inHook c event = false → s.Dead event (some k))

structure System.Inv (s : System T C) : Prop where
  lists : s.Lists
  firings : s.Firings
  starts : s.Starts
  cancels : s.Cancels

variable {s s' : System T C} {c : C} {event : T} {f : Firing T}

omit [DecidableEq C] in
lemma System.Inv.init (timers : T → Timer C) : (System.init timers).Inv :=
  ⟨⟨nofun, fun _ => List.nodup_nil, fun _ => .nil⟩,
    ⟨nofun, nofun, nofun, nofun, nofun, nofun, nofun, nofun⟩,
    ⟨fun _ _ _ => rfl, nofun, nofun, fun _ _ => Nat.zero_le _⟩, ⟨nofun, nofun⟩⟩

omit [DecidableEq C] in
lemma inHook_eq : s.inHook c event = true ↔
    ∃ f, s.interrupts c = some f ∧ f.event = event ∧ f.stage = .running := by
  unfold System.inHook
  cases h : s.interrupts c with
  | none => exact ⟨nofun, nofun⟩
  | some f =>
    show (f.event = event && f.stage = .running : Bool) = true ↔ _
    rw [Bool.and_eq_true, decide_eq_true_iff, decide_eq_true_iff]
    exact ⟨fun hf => ⟨f, rfl, hf⟩, fun ⟨g, hg, hr⟩ => by cases hg; exact hr⟩

omit [DecidableEq C] in
lemma inHook_congr (h : s'.interrupts c = s.interrupts c) :
    s'.inHook c event = s.inHook c event := by
  unfold System.inHook
  rw [h]

omit [DecidableEq T] [DecidableEq C] in
lemma System.Dead.of {except : Option C} (h : s.Dead event except)
    (hevents : ∀ k, event ∈ (s'.cpus k).events → event ∈ (s.cpus k).events)
    (hfirings : ∀ k f', s'.interrupts k = some f' → f'.event = event →
      ∃ f, s.interrupts k = some f ∧ f.event = event ∧ f.mode = f'.mode ∧
        ((s.cpus k).currentEvent = none → (s'.cpus k).currentEvent = none) ∧
        (f'.stage = .taken → f.stage = .taken) ∧
        (f'.stage = .running → f.stage = .running ∨
          (f.stage = .taken ∧ ¬(acquires f.mode = true ∧ (s.cpus k).currentEvent = none)))) :
    s'.Dead event except := by
  refine ⟨fun k hk => h.unlisted k (hevents k hk), fun k f' hf' he hr => ?_,
    fun k f' hf' he ht => ?_, fun k f' hf' he hp => ?_⟩
  · obtain ⟨f, hf, hfe, -, -, -, hrun⟩ := hfirings k f' hf' he
    rcases hrun hr with hrun | ⟨htaken, hnot⟩
    · exact h.running k f hf hfe hrun
    · exact (h.taken k f hf hfe htaken).resolve_right hnot
  · obtain ⟨f, hf, hfe, hmode, hcur, htaken, -⟩ := hfirings k f' hf' he
    rw [← hmode]
    exact (h.taken k f hf hfe (htaken ht)).imp_right fun hd => ⟨hd.1, hcur hd.2⟩
  · obtain ⟨f, hf, hfe, hmode, hcur, -⟩ := hfirings k f' hf' he
    rw [← hmode] at hp
    exact hcur (h.again k f hf hfe hp)

end Haiku.Timers
