import Haiku.Timers.CallTheorems

/-!
# Timers in every run

A hook that cancels its own timer waits for itself: the test that is to prevent this is the wrong
way round. A timer that is added again while `timer_interrupt()` is busy with it, and one that is
cancelled twice, may run after `cancel_timer()` has returned.
-/

namespace Haiku.Timers

open Lib

variable {T C : Type} [DecidableEq T] [DecidableEq C]

variable {s s' : System T C} {c : C} {f : Firing T}

omit [DecidableEq C] in
lemma System.Inv.setLock (hs : s.Inv) {lock : Option C}
    (hlock : ∀ k f, s.interrupts k = some f → f.stage = .running → acquires f.mode = true →
      lock = some k) : ({ s with threadLock := lock } : System T C).Inv := by
  obtain ⟨hlists, hfirings, hstarts, hcancels⟩ := hs
  have hdead : ∀ e except, s.Dead e except →
      ({ s with threadLock := lock } : System T C).Dead e except :=
    fun e except h => ⟨h.unlisted, h.running, h.taken, h.again⟩
  refine ⟨⟨hlists.listed, hlists.nodup, hlists.sorted⟩, ⟨hfirings.current, hfirings.progress,
    hfirings.bound, hfirings.last, hfirings.distinct, hfirings.periodic, hfirings.again, hlock⟩,
    ⟨hstarts.never, hstarts.listed, hstarts.taken, hstarts.once⟩,
    ⟨fun e he => hdead e none (hcancels.dead e he), fun c' e k hk => ?_⟩⟩
  obtain ⟨hne, hd⟩ := hcancels.polls c' e k hk
  exact ⟨hne, fun hh => hdead e _ (hd hh)⟩

lemma System.Inv.start (hs : s.Inv) (hf : s.interrupts c = some f) (hcall : s.calls c = none)
    (htaken : f.stage = .taken) (h : s.start c f = some s') : s'.Inv := by
  unfold System.start at h
  by_cases hhook : (s.timers f.event).hook = 0
  · rw [if_pos hhook] at h
    cases h
    exact hs.skip hf hcall fun _ _ hk => hk
  rw [if_neg hhook] at h
  by_cases hacq : acquires f.mode = true
  · rw [if_pos hacq] at h
    by_cases hlock : s.threadLock.isSome = true
    · rw [if_pos hlock] at h
      cases h
    have hfree : s.threadLock = none := Option.not_isSome_iff_eq_none.1 hlock
    rw [if_neg hlock] at h
    by_cases hcurrent : (s.cpus c).currentEvent.isNone = true
    · rw [if_pos hcurrent] at h
      cases h
      exact hs.skip hf hcall fun _ _ hk => hk
    · rw [if_neg hcurrent] at h
      cases h
      refine hs.call hf hcall htaken (fun k _ hk => ?_) fun _ => ⟨rfl, fun hc => ?_⟩
      · rw [hfree] at hk
        cases hk
      · rw [hc] at hcurrent
        exact hcurrent rfl
  · rw [if_neg hacq] at h
    cases h
    exact hs.call hf hcall htaken (fun _ _ hk => hk) fun ha => absurd ha hacq

lemma System.Inv.finish (hs : s.Inv) (hf : s.interrupts c = some f) (hcall : s.calls c = none)
    (hrunning : f.stage = .running) (h : s.finish c f = some s') : s'.Inv := by
  unfold System.finish at h
  by_cases hacq : acquires f.mode = true
  · rw [if_pos hacq] at h
    cases h
    refine hs.skip hf hcall fun k hk hlock => ?_
    -- timer_interrupt() itself holds the lock
    have hmine := hs.firings.locked c f hf hrunning hacq
    rw [hmine] at hlock
    exact absurd (Option.some.inj hlock).symm hk
  · rw [if_neg hacq] at h
    split_ifs at h
    cases h
    exact hs.skip hf hcall fun _ _ hk => hk

lemma System.Inv.step (hs : s.Inv) {a : C × Input T} (hproper : Proper s a) (hmeets : Meets s a)
    (h : step s a = some s') : s'.Inv := by
  obtain ⟨c, input⟩ := a
  unfold Timers.step at h
  cases input with
  | add event hook period flags now =>
    dsimp only at h
    split_ifs at h
    cases h
    exact hs.addTimer hproper hmeets hook period flags now
  | cancel event =>
    dsimp only at h
    split_ifs at h
    cases h
    exact hs.setCall nofun
  | go =>
    obtain ⟨call, hcall, he⟩ := Option.map_eq_some_iff.1 h
    cases he
    exact hs.go hcall fun event hd => hmeets call event hcall hd
  | interrupt now =>
    dsimp only at h
    split_ifs at h with hc
    cases h
    exact hs.fetch (Option.isNone_iff_eq_none.1 hc.2.1) (Option.isNone_iff_eq_none.1 hc.1) now
  | start =>
    obtain ⟨f, hf, h⟩ := Option.bind_eq_some_iff.1 h
    split_ifs at h with hc
    exact hs.start hf (Option.isNone_iff_eq_none.1 hc.1) hc.2 h
  | finish =>
    obtain ⟨f, hf, h⟩ := Option.bind_eq_some_iff.1 h
    split_ifs at h with hc
    exact hs.finish hf (Option.isNone_iff_eq_none.1 hc.1) hc.2 h
  | next now later =>
    obtain ⟨f, hf, h⟩ := Option.bind_eq_some_iff.1 h
    split_ifs at h with hc
    cases h
    obtain ⟨hinv, hnone, hcall⟩ := hs.reschedule hf (Option.isNone_iff_eq_none.1 hc.1) now
    exact hinv.fetch hnone hcall later
  | grabThreadLock =>
    dsimp only at h
    split_ifs at h with hc
    cases h
    refine hs.setLock fun k f hf hr hacq => ?_
    have hheld := hs.firings.locked k f hf hr hacq
    rw [hheld] at hc
    cases hc.2
  | releaseThreadLock =>
    dsimp only at h
    split_ifs at h with hc
    cases h
    refine hs.setLock fun k f hf hr hacq => ?_
    obtain ⟨-, hmine, hall⟩ := hc
    have hheld := hs.firings.locked k f hf hr hacq
    rw [hmine] at hheld
    cases hheld
    rw [hf] at hall
    have hnot : (!acquires f.mode) = true := hall
    rw [hacq] at hnot
    cases hnot

omit [DecidableEq C] in
lemma System.Inv.right (hs : s.Inv) : s.Right := by
  refine ⟨hs.lists.sorted, hs.lists.nodup, hs.starts.once, fun event hc k => ?_,
    fun c event hc => absurd rfl (hs.cancels.polls c event c hc).1⟩
  by_contra hin
  obtain ⟨f, hf, he, hr⟩ := inHook_eq.1 (Bool.not_eq_false _ ▸ hin)
  cases (hs.cancels.dead event hc).running k f hf he hr

/-- The timers are right in every run in which timers are added and cancelled only when they may
be. -/
theorem timers_right {timers : T → Timer C} {h : History (System T C) (C × Input T)}
    (hr : Run step (fun s a => Proper s a ∧ Meets s a) (.init timers) h s) : s.Right := by
  have hinv : s.Inv := hr.invariant (.init timers) fun hs hok ht => hs.step hok.1 hok.2 ht
  exact hinv.right

/-! ## Runs of one CPU with one timer -/

/-- Whether the CPU is not in `timer_interrupt()`; a timer is added when it is in no list. -/
def calm (s : System Unit Unit) (a : Unit × Input Unit) : Bool :=
  (s.interrupts ()).isNone && (s.cpus ()).currentEvent.isNone &&
    match a.2 with
    | .add .. => (s.cpus ()).events.isEmpty && (s.calls ()).isNone
    | _ => true

lemma calm_spec (s : System Unit Unit) (a : Unit × Input Unit) (h : calm s a = true) :
    Proper s a ∧ Meets s a := by
  obtain ⟨⟨⟩, input⟩ := a
  unfold calm at h
  rw [Bool.and_eq_true, Bool.and_eq_true, Option.isNone_iff_eq_none,
    Option.isNone_iff_eq_none] at h
  obtain ⟨⟨hnone, hcurrent⟩, hadd⟩ := h
  have hfirings : ∀ k f, s.interrupts k ≠ some f := by
    rintro ⟨⟩ f hf
    rw [hnone] at hf
    cases hf
  have hcur : ∀ k e, (s.cpus k).currentEvent ≠ some e := by
    rintro ⟨⟩ e he
    rw [hcurrent] at he
    cases he
  cases input with
  | add event hook period flags now =>
    have hadd' : ((s.cpus ()).events.isEmpty && (s.calls ()).isNone) = true := hadd
    rw [Bool.and_eq_true, List.isEmpty_iff, Option.isNone_iff_eq_none] at hadd'
    refine ⟨?_, fun k f hf => absurd hf (hfirings k f), ?_⟩
    · rintro ⟨⟩
      show event ∉ (s.cpus ()).events
      rw [hadd'.1]
      exact List.not_mem_nil
    · rintro ⟨⟩ k hk
      rw [hadd'.2] at hk
      cases hk
  | go =>
    exact ⟨trivial, fun call event _ _ => ⟨fun _ => hcur _ _, fun _ _ k f hf =>
      absurd hf (hfirings k f), fun _ _ k _ hk => absurd hk (hcur k event)⟩⟩
  | _ => exact ⟨trivial, trivial⟩

/-- A timer is added and cancelled before it is due. -/
theorem timers_right_run : (outcome step
    (System.init fun _ : Unit => (⟨0, 0, none, 0, 0⟩ : Timer Unit))
    [((), .add () 1 5 1 0), ((), .cancel ()), ((), .go), ((), .go)]).Right := by
  obtain ⟨h, hr, -⟩ := run_outcome step calm_spec
    (System.init fun _ : Unit => (⟨0, 0, none, 0, 0⟩ : Timer Unit))
    [((), .add () 1 5 1 0), ((), .cancel ()), ((), .go), ((), .go)] (fun _ => true)
    (by decide)
  exact timers_right hr

/-- A hook that cancels its timer waits for itself. -/
theorem not_timers_right : ¬∀ h s, Run step Proper
    (System.init fun _ : Unit => (⟨0, 0, none, 0, 0⟩ : Timer Unit)) h s → s.Right := by
  intro hall
  have hproper : ∀ (s : System Unit Unit) (a : Unit × Input Unit),
      (match a.2 with
        | .add .. => (s.cpus ()).events.isEmpty
        | _ => true) = true → Proper s a := by
    rintro s ⟨⟨⟩, input⟩ h
    cases input with
    | add event hook period flags now =>
      rintro ⟨⟩
      show event ∉ (s.cpus ()).events
      rw [List.isEmpty_iff.1 h]
      exact List.not_mem_nil
    | _ => exact trivial
  obtain ⟨h, hr, -⟩ := run_outcome step hproper
    (System.init fun _ : Unit => (⟨0, 0, none, 0, 0⟩ : Timer Unit))
    [((), .add () 1 0 1 0), ((), .interrupt 2), ((), .start), ((), .cancel ()), ((), .go),
      ((), .go)] (fun _ => true) (by decide)
  have hpolls := (hall h _ hr).polls () () (by decide) ()
  revert hpolls
  decide

end Haiku.Timers
