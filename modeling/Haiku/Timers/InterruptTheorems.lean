import Haiku.Timers.Basic

/-!
# The timer interrupt keeps the invariants
-/

namespace Haiku.Timers

open Function Lib

variable {T C : Type} [DecidableEq T] [DecidableEq C]

variable {s s' : System T C} {c : C} {f : Firing T}

/-! ## The hook -/

/-- What the start and the end of the hook of `f` on `c` have in common: nothing but the stage, the
thread lock and the numbers of starts changes. -/
structure System.Restaged (s s' : System T C) (c : C) (f : Firing T) (stage : Stage) : Prop where
  timers : s'.timers = s.timers
  calls : s'.calls = s.calls
  adds : s'.adds = s.adds
  cancelled : s'.cancelled = s.cancelled
  events : ∀ k, (s'.cpus k).events = (s.cpus k).events
  current : ∀ k, (s'.cpus k).currentEvent = (s.cpus k).currentEvent
  progress : ∀ k ≠ c, (s'.cpus k).currentEventInProgress = (s.cpus k).currentEventInProgress
  self : s'.interrupts c = some { f with stage := stage }
  other : ∀ k ≠ c, s'.interrupts k = s.interrupts k

omit [DecidableEq T] [DecidableEq C] in
lemma System.Restaged.was {stage : Stage} (h : s.Restaged s' c f stage)
    (hf : s.interrupts c = some f) {k : C} {g : Firing T} (hg : s'.interrupts k = some g) :
    ∃ g', s.interrupts k = some g' ∧ g'.event = g.event ∧ g'.mode = g.mode ∧ g'.add = g.add ∧
      ((g' = g ∧ k ≠ c) ∨ (g' = f ∧ k = c ∧ g.stage = stage)) := by
  by_cases hk : k = c
  · rw [hk, h.self] at hg
    cases hg
    exact ⟨f, by rw [hk]; exact hf, rfl, rfl, rfl, .inr ⟨rfl, hk, rfl⟩⟩
  · rw [h.other k hk] at hg
    exact ⟨g, hg, rfl, rfl, rfl, .inl ⟨rfl, hk⟩⟩

omit [DecidableEq C] in
lemma System.Inv.restage {stage : Stage} (hs : s.Inv) (h : s.Restaged s' c f stage)
    (hf : s.interrupts c = some f) (hcall : s.calls c = none) (htaken : stage ≠ .taken)
    (hrun : stage = .running → (s'.cpus c).currentEventInProgress = true ∧ f.stage = .taken ∧
      ¬(acquires f.mode = true ∧ (s.cpus c).currentEvent = none))
    (hlocked : ∀ k g, s'.interrupts k = some g → g.stage = .running → acquires g.mode = true →
      s'.threadLock = some k)
    (hstarts : s'.Starts) : s'.Inv := by
  obtain ⟨hlists, hfirings, -, hcancels⟩ := hs
  have hdead : ∀ event except, s.Dead event except → s'.Dead event except := by
    intro event except hd
    refine hd.of (fun k hk => h.events k ▸ hk) fun k g hg he => ?_
    obtain ⟨g', hg', he', hmode, -, hsame⟩ := h.was hf hg
    refine ⟨g', hg', he'.trans he, hmode, fun hc => (h.current k).trans hc, fun ht => ?_,
      fun hr => ?_⟩
    · rcases hsame with ⟨rfl, -⟩ | ⟨-, -, hst⟩
      · exact ht
      · exact absurd (hst.symm.trans ht) htaken
    · rcases hsame with ⟨rfl, -⟩ | ⟨rfl, rfl, hst⟩
      · exact .inl hr
      · exact .inr (hrun (hst.symm.trans hr)).2
  refine ⟨⟨fun k e he => ?_, fun k => ?_, fun k => ?_⟩, ⟨fun k e he => ?_, fun k g hg hst => ?_,
      fun k g hg => ?_, fun k g hg ha => ?_, fun k k' g g' hg hg' he ha => ?_,
      fun k g hg hp hc => ?_, fun k g hg hc hcp => ?_, hlocked⟩, hstarts,
    ⟨fun e he => hdead e none (hcancels.dead e (h.cancelled ▸ he)), fun c' e k hk => ?_⟩⟩
  · rw [h.events] at he
    rw [h.timers]
    exact hlists.listed k e he
  · rw [h.events]
    exact hlists.nodup k
  · rw [h.events, h.timers]
    exact hlists.sorted k
  · rw [h.current] at he
    obtain ⟨g, hg, hge⟩ := hfirings.current k e he
    by_cases hk : k = c
    · rw [hk, hf] at hg
      cases hg
      exact ⟨{ f with stage := stage }, by rw [hk]; exact h.self, hge⟩
    · exact ⟨g, (h.other k hk).trans hg, hge⟩
  · obtain ⟨g', hg', -, -, -, hsame⟩ := h.was hf hg
    rcases hsame with ⟨rfl, hk⟩ | ⟨-, rfl, hst'⟩
    · rw [h.progress k hk]
      exact hfirings.progress k g' hg' hst
    · apply (hrun _).1
      rw [← hst']
      cases hgs : g.stage with
      | taken => exact absurd (hst'.symm.trans hgs) htaken
      | running => rfl
      | ended => exact absurd hgs hst
  · obtain ⟨g', hg', he, -, ha, -⟩ := h.was hf hg
    rw [← he, ← ha, h.adds]
    exact hfirings.bound k g' hg'
  · obtain ⟨g', hg', he, hm, ha', -⟩ := h.was hf hg
    rw [← he, h.adds, ← ha'] at ha
    rw [← he, ← hm, h.timers]
    have hlast := hfirings.last k g' hg' ha
    exact ⟨hlast.1, hlast.2.1, fun j hj => hlast.2.2 j (h.events j ▸ hj)⟩
  · obtain ⟨x, hx, he', -, ha', -⟩ := h.was hf hg
    obtain ⟨x', hx', he'', -, ha'', -⟩ := h.was hf hg'
    exact hfirings.distinct k k' x x' hx hx' (by rw [he', he'', he]) (by rw [ha', ha'', ha])
  · obtain ⟨g', hg', he, hm, ha, -⟩ := h.was hf hg
    rw [h.current] at hc
    rw [← he, ← ha, h.adds]
    exact hfirings.periodic k g' hg' (hm ▸ hp) (he ▸ hc)
  · obtain ⟨g', hg', he, -, ha, -⟩ := h.was hf hg
    rw [h.current, ← he] at hc
    rw [h.timers, ← he] at hcp
    rw [← he, ← ha, h.events, h.adds]
    exact hfirings.again k g' hg' hc hcp
  · rw [h.calls] at hk
    have hc' : c' ≠ c := by
      rintro rfl
      rw [hcall] at hk
      cases hk
    obtain ⟨hne, hd⟩ := hcancels.polls c' e k hk
    rw [inHook_congr (h.other c' hc')]
    exact ⟨hne, fun hh => hdead e _ (hd hh)⟩

lemma System.Inv.skip (hs : s.Inv) (hf : s.interrupts c = some f) (hcall : s.calls c = none)
    {lock : Option C} (hlock : ∀ k ≠ c, s.threadLock = some k → lock = some k) :
    (({ s with threadLock := lock } : System T C).skip c f).Inv := by
  set s' := ({ s with threadLock := lock } : System T C).skip c f
  have hcpus : s'.cpus = update s.cpus c
      { s.cpus c with currentEventInProgress := false } := rfl
  have h : s.Restaged s' c f .ended := by
    refine ⟨rfl, rfl, rfl, rfl, fun k => ?_, fun k => ?_, fun k hk => ?_,
      update_self _ _ _, fun k hk => update_of_ne hk _ _⟩
    · rw [hcpus]
      by_cases hk : k = c
      · rw [hk, update_self]
      · rw [update_of_ne hk]
    · rw [hcpus]
      by_cases hk : k = c
      · rw [hk, update_self]
      · rw [update_of_ne hk]
    · rw [hcpus, update_of_ne hk]
  refine hs.restage h hf hcall nofun nofun (fun k g hg hr hacq => ?_)
    ⟨hs.starts.never, fun k e he => ?_, fun k g hg ht hp => ?_, hs.starts.once⟩
  · obtain ⟨g', hg', -, -, -, ⟨rfl, hk⟩ | ⟨-, -, hst⟩⟩ := h.was hf hg
    · exact hlock k hk (hs.firings.locked k g' hg' hr hacq)
    · cases hst.symm.trans hr
  · exact hs.starts.listed k e (h.events k ▸ he)
  · obtain ⟨g', hg', -, -, -, ⟨rfl, hk⟩ | ⟨-, -, hst⟩⟩ := h.was hf hg
    · exact hs.starts.taken k g' hg' ht hp
    · cases hst.symm.trans ht

lemma System.Inv.call (hs : s.Inv) (hf : s.interrupts c = some f) (hcall : s.calls c = none)
    (htaken : f.stage = .taken) {lock : Option C}
    (hlock : ∀ k ≠ c, s.threadLock = some k → lock = some k)
    (hmine : acquires f.mode = true → lock = some c ∧ (s.cpus c).currentEvent ≠ none) :
    (({ s with threadLock := lock } : System T C).call c f).Inv := by
  set s' := ({ s with threadLock := lock } : System T C).call c f with hs'
  have h : s.Restaged s' c f .running :=
    ⟨rfl, rfl, rfl, rfl, fun _ => rfl, fun _ => rfl, fun _ _ => rfl, update_self _ _ _,
      fun k hk => update_of_ne hk _ _⟩
  have hprogress := hs.firings.progress c f hf (by rw [htaken]; exact nofun)
  have hbound := hs.firings.bound c f hf
  -- only the number of the one-shot timer goes up
  have hcount : ∀ e n, (e = f.event ∧ n = f.add ∧ periodic f.mode = false ∧
      s'.starts e n = s.starts e n + 1) ∨ s'.starts e n = s.starts e n := by
    intro e n
    have hst : s'.starts = if periodic f.mode then s.starts else
        update s.starts f.event
          (update (s.starts f.event) f.add (s.starts f.event f.add + 1)) := rfl
    rw [hst]
    by_cases hp : periodic f.mode = true
    · rw [if_pos hp]
      exact .inr rfl
    · rw [if_neg hp]
      by_cases he : e = f.event
      · subst he
        rw [update_self]
        by_cases hn : n = f.add
        · subst hn
          rw [update_self]
          exact .inl ⟨rfl, rfl, Bool.not_eq_true _ ▸ hp, rfl⟩
        · rw [update_of_ne hn]
          exact .inr rfl
      · rw [update_of_ne he]
        exact .inr rfl
  refine hs.restage h hf hcall nofun (fun _ => ⟨hprogress, htaken, fun hd => (hmine hd.1).2 hd.2⟩)
    (fun k g hg hr hacq => ?_) ⟨fun e n hn => ?_, fun k e he hp => ?_, fun k g hg ht hp => ?_,
      fun e n => ?_⟩
  · obtain ⟨g', hg', -, hmode, -, ⟨rfl, hk⟩ | ⟨rfl, rfl, -⟩⟩ := h.was hf hg
    · exact hlock k hk (hs.firings.locked k g' hg' hr hacq)
    · exact (hmine (hmode ▸ hacq)).1
  · rcases hcount e n with ⟨rfl, rfl, -⟩ | hsame
    · have hlt : s.adds f.event < f.add := hn
      omega
    · rw [hsame]
      exact hs.starts.never e n hn
  · have hmem := h.events k ▸ he
    rcases hcount e (s'.adds e) with ⟨rfl, hadd, -⟩ | hsame
    · exact absurd hmem ((hs.firings.last c f hf hadd.symm).2.2 k)
    · rw [hsame]
      exact hs.starts.listed k e hmem hp
  · obtain ⟨g', hg', -, -, -, ⟨rfl, hk⟩ | ⟨-, -, hst⟩⟩ := h.was hf hg
    · rcases hcount g'.event g'.add with ⟨he, ha, -⟩ | hsame
      · exact absurd (hs.firings.distinct k c g' f hg' hf he ha) hk
      · rw [hsame]
        exact hs.starts.taken k g' hg' ht hp
    · cases hst.symm.trans ht
  · rcases hcount e n with ⟨rfl, rfl, hp, hplus⟩ | hsame
    · have hzero := hs.starts.taken c f hf htaken hp
      omega
    · rw [hsame]
      exact hs.starts.once e n

/-! ## The lists -/

section

variable {time : T → ℤ} {event x : T} {l : List T}

omit [DecidableEq T] in
lemma mem_addEventToList : x ∈ addEventToList time event l ↔ x = event ∨ x ∈ l := by
  induction l with
  | nil => exact List.mem_cons
  | cons next rest ih =>
    unfold addEventToList
    split_ifs with hle
    · exact List.mem_cons
    · rw [List.mem_cons, ih, List.mem_cons]
      exact or_left_comm

omit [DecidableEq T] in
lemma nodup_addEventToList (h : l.Nodup) (hnot : event ∉ l) :
    (addEventToList time event l).Nodup := by
  induction l with
  | nil => exact List.pairwise_singleton _ _
  | cons next rest ih =>
    rw [List.mem_cons, not_or] at hnot
    obtain ⟨hnext, hrest⟩ := List.nodup_cons.1 h
    unfold addEventToList
    split_ifs with hle
    · exact List.nodup_cons.2 ⟨by rw [List.mem_cons, not_or]; exact hnot, h⟩
    · refine List.nodup_cons.2 ⟨fun hm => ?_, ih hrest hnot.2⟩
      rcases mem_addEventToList.1 hm with he | hm
      · exact hnot.1 he.symm
      · exact hnext hm

omit [DecidableEq T] in
lemma sorted_addEventToList (h : l.Pairwise fun a b => time a ≤ time b) :
    (addEventToList time event l).Pairwise fun a b => time a ≤ time b := by
  induction l with
  | nil => exact List.pairwise_singleton _ _
  | cons next rest ih =>
    obtain ⟨hnext, hrest⟩ := List.pairwise_cons.1 h
    unfold addEventToList
    split_ifs with hle
    · refine List.pairwise_cons.2 ⟨fun b hb => ?_, h⟩
      rcases List.mem_cons.1 hb with rfl | hb
      · exact hle
      · exact Int.le_trans hle (hnext b hb)
    · refine List.pairwise_cons.2 ⟨fun b hb => ?_, ih hrest⟩
      rcases mem_addEventToList.1 hb with rfl | hb
      · omega
      · exact hnext b hb

end

section

variable {event : T} {timer : Timer C}

lemma enlist_events (k : C) : (((s.setTimer event timer).enlist c event).cpus k).events =
    if k = c then addEventToList
      (fun e => (update s.timers event timer e).scheduleTime) event (s.cpus c).events
    else (s.cpus k).events := by
  show (update s.cpus c _ k).events = _
  by_cases hk : k = c
  · rw [hk, update_self, if_pos rfl]
    rfl
  · rw [update_of_ne hk, if_neg hk]

lemma mem_enlist {k : C} {e : T} :
    e ∈ (((s.setTimer event timer).enlist c event).cpus k).events ↔
      (e = event ∧ k = c) ∨ e ∈ (s.cpus k).events := by
  rw [enlist_events]
  by_cases hk : k = c
  · rw [if_pos hk, mem_addEventToList, hk, and_iff_left rfl]
  · rw [if_neg hk]
    exact ⟨.inr, fun h => h.resolve_left fun hc => hk hc.2⟩

lemma System.Lists.enlist (h : s.Lists) (hfree : ∀ k, event ∉ (s.cpus k).events)
    (hcpu : timer.cpu = some c) : ((s.setTimer event timer).enlist c event).Lists := by
  have htimer : ∀ e ≠ event, update s.timers event timer e = s.timers e :=
    fun e he => update_of_ne he _ _
  have hne : ∀ k e, e ∈ (s.cpus k).events → e ≠ event := by
    rintro k e he rfl
    exact hfree k he
  -- the times of the events in the lists are as before
  have hsorted : ∀ k, (s.cpus k).events.Pairwise fun a b =>
      (update s.timers event timer a).scheduleTime ≤
        (update s.timers event timer b).scheduleTime := by
    intro k
    refine (h.sorted k).imp_of_mem fun {a b} ha hb hab => ?_
    rw [htimer a (hne k a ha), htimer b (hne k b hb)]
    exact hab
  refine ⟨fun k e he => ?_, fun k => ?_, fun k => ?_⟩
  · show (update s.timers event timer e).cpu = some k
    rcases mem_enlist.1 he with ⟨rfl, rfl⟩ | he
    · rw [update_self, hcpu]
    · rw [htimer e (hne k e he)]
      exact h.listed k e he
  · rw [enlist_events]
    split_ifs with hk
    · exact nodup_addEventToList (h.nodup c) (hfree c)
    · exact h.nodup k
  · rw [enlist_events]
    split_ifs with hk
    · exact sorted_addEventToList (hsorted c)
    · exact hsorted k

end

/-! ## The sections -/

lemma System.Inv.reschedule (hs : s.Inv) (hf : s.interrupts c = some f)
    (hcall : s.calls c = none) (now : ℤ) : (s.reschedule c f now).Inv ∧
      (s.reschedule c f now).interrupts c = none ∧ (s.reschedule c f now).calls c = none := by
  obtain ⟨hlists, hfirings, hstarts, hcancels⟩ := hs
  set timer := s.timers f.event
  set again := periodic f.mode && (s.cpus c).currentEvent.isSome with hagain
  set time := bigtime (now + timer.period)
  set rescheduled : Timer C := { timer with
    scheduleTime := if time = 0 then 1 else time }
  set added := if again then (s.setTimer f.event rescheduled).enlist c f.event else s with hadded
  -- an event that is added again has not been added in the meantime
  have hsame : again = true → f.add = s.adds f.event ∧ (s.cpus c).currentEvent = some f.event ∧
      periodic f.mode = true := by
    intro ha
    rw [hagain, Bool.and_eq_true, Option.isSome_iff_exists] at ha
    obtain ⟨hp, e, he⟩ := ha
    obtain ⟨g, hg, hge⟩ := hfirings.current c e he
    rw [hf] at hg
    cases hg
    rw [hge]
    exact ⟨hge ▸ hfirings.periodic c f hf hp (hge ▸ he), he, hp⟩
  have hmem : ∀ k e, e ∈ (added.cpus k).events ↔
      (again = true ∧ e = f.event ∧ k = c) ∨ e ∈ (s.cpus k).events := by
    intro k e
    by_cases ha : again = true
    · rw [hadded, if_pos ha, mem_enlist]
      exact or_congr_left ⟨fun h => ⟨ha, h⟩, fun h => h.2⟩
    · rw [hadded, if_neg ha]
      exact ⟨.inr, fun h => h.resolve_left fun hc => ha hc.1⟩
  have htimers : ∀ e, (added.timers e).cpu = (s.timers e).cpu ∧
      (added.timers e).mode = (s.timers e).mode := by
    intro e
    by_cases ha : again = true
    · rw [hadded, if_pos ha]
      show (update s.timers f.event rescheduled e).cpu = _ ∧
        (update s.timers f.event rescheduled e).mode = _
      by_cases he : e = f.event
      · rw [he, update_self]
        exact ⟨rfl, rfl⟩
      · rw [update_of_ne he]
        exact ⟨rfl, rfl⟩
    · rw [hadded, if_neg ha]
      exact ⟨rfl, rfl⟩
  have hcpus : ∀ k, (added.cpus k).currentEvent = (s.cpus k).currentEvent ∧
      (added.cpus k).currentEventInProgress = (s.cpus k).currentEventInProgress := by
    intro k
    by_cases ha : again = true
    · rw [hadded, if_pos ha]
      show (update s.cpus c _ k).currentEvent = _ ∧
        (update s.cpus c _ k).currentEventInProgress = _
      by_cases hk : k = c
      · rw [hk, update_self]
        exact ⟨rfl, rfl⟩
      · rw [update_of_ne hk]
        exact ⟨rfl, rfl⟩
    · rw [hadded, if_neg ha]
      exact ⟨rfl, rfl⟩
  have hrest : added.interrupts = s.interrupts ∧ added.calls = s.calls ∧
      added.threadLock = s.threadLock ∧ added.adds = s.adds ∧ added.starts = s.starts ∧
        added.cancelled = s.cancelled := by
    by_cases ha : again = true
    · rw [hadded, if_pos ha]
      exact ⟨rfl, rfl, rfl, rfl, rfl, rfl⟩
    · rw [hadded, if_neg ha]
      exact ⟨rfl, rfl, rfl, rfl, rfl, rfl⟩
  obtain ⟨hinterrupts, hcalls, hlock, hadds, hst, hcan⟩ := hrest
  have haddedLists : added.Lists := by
    by_cases ha : again = true
    · rw [hadded, if_pos ha]
      obtain ⟨ha', -, -⟩ := hsame ha
      obtain ⟨hcpu, -, hfree⟩ := hfirings.last c f hf ha'
      exact hlists.enlist hfree hcpu
    · rw [hadded, if_neg ha]
      exact hlists
  set s' := s.reschedule c f now with hs'
  have hself : s'.interrupts c = none := update_self _ _ _
  have hother : ∀ k ≠ c, s'.interrupts k = s.interrupts k := by
    intro k hk
    rw [← hinterrupts]
    exact update_of_ne hk _ _
  have hwas : ∀ k g, s'.interrupts k = some g → k ≠ c ∧ s.interrupts k = some g := by
    intro k g hg
    have hk : k ≠ c := by
      rintro rfl
      rw [hself] at hg
      cases hg
    exact ⟨hk, hother k hk ▸ hg⟩
  have hevents : ∀ k, (s'.cpus k).events = (added.cpus k).events := by
    intro k
    show (update added.cpus c _ k).events = _
    by_cases hk : k = c
    · rw [hk, update_self]
    · rw [update_of_ne hk]
  have hcurrent : ∀ k ≠ c, (s'.cpus k).currentEvent = (s.cpus k).currentEvent ∧
      (s'.cpus k).currentEventInProgress = (s.cpus k).currentEventInProgress := by
    intro k hk
    rw [← (hcpus k).1, ← (hcpus k).2]
    show (update added.cpus c _ k).currentEvent = _ ∧
      (update added.cpus c _ k).currentEventInProgress = _
    rw [update_of_ne hk]
    exact ⟨rfl, rfl⟩
  have hnone : (s'.cpus c).currentEvent = none := by
    show (update added.cpus c _ c).currentEvent = _
    rw [update_self]
  have hdead : ∀ event except, s.Dead event except → s'.Dead event except := by
    intro event except hd
    refine hd.of (fun k hk => ?_) fun k g hg he => ?_
    · rw [hevents, hmem] at hk
      rcases hk with ⟨ha, rfl, rfl⟩ | hk
      · obtain ⟨-, hc, hp⟩ := hsame ha
        rw [hd.again k f hf rfl hp] at hc
        cases hc
      · exact hk
    · obtain ⟨hk, hg'⟩ := hwas k g hg
      exact ⟨g, hg', he, rfl, fun hc => (hcurrent k hk).1.trans hc, id, .inl⟩
  refine ⟨⟨⟨fun k e he => ?_, fun k => ?_, fun k => ?_⟩, ⟨fun k e he => ?_, fun k g hg hst => ?_,
    fun k g hg => ?_, fun k g hg ha => ?_, fun k k' g g' hg hg' he ha => ?_,
    fun k g hg hp hc => ?_, fun k g hg hc hcp => ?_, fun k g hg hr hacq => ?_⟩,
    ⟨fun e n hn => ?_, fun k e he hp => ?_, fun k g hg ht hp => ?_, fun e n => ?_⟩,
    ⟨fun e he => hdead e none (hcancels.dead e (hcan ▸ he)), fun c' e k hk => ?_⟩⟩, hself,
    (congrFun hcalls c).trans hcall⟩
  · rw [hevents] at he
    exact haddedLists.listed k e he
  · rw [hevents]
    exact haddedLists.nodup k
  · rw [hevents]
    exact haddedLists.sorted k
  · have hk : k ≠ c := by
      rintro rfl
      rw [hnone] at he
      cases he
    rw [(hcurrent k hk).1] at he
    obtain ⟨g, hg, hge⟩ := hfirings.current k e he
    exact ⟨g, (hother k hk).trans hg, hge⟩
  · obtain ⟨hk, hg'⟩ := hwas k g hg
    rw [(hcurrent k hk).2]
    exact hfirings.progress k g hg' hst
  · show g.add ≤ added.adds g.event
    rw [hadds]
    exact hfirings.bound k g (hwas k g hg).2
  · obtain ⟨hk, hg'⟩ := hwas k g hg
    have ha' : g.add = s.adds g.event := hadds ▸ ha
    obtain ⟨hcpu, hm, hfree⟩ := hfirings.last k g hg' ha'
    refine ⟨(htimers g.event).1.trans hcpu, hm.trans (htimers g.event).2.symm, fun j hj => ?_⟩
    rw [hevents, hmem] at hj
    rcases hj with ⟨hag, he, -⟩ | hj
    · have hadd : g.add = f.add := by rw [ha', he, (hsame hag).1]
      exact hk (hfirings.distinct k c g f hg' hf he hadd)
    · exact hfree j hj
  · exact hfirings.distinct k k' g g' (hwas k g hg).2 (hwas k' g' hg').2 he ha
  · obtain ⟨hk, hg'⟩ := hwas k g hg
    show g.add = added.adds g.event
    rw [(hcurrent k hk).1] at hc
    rw [hadds]
    exact hfirings.periodic k g hg' hp hc
  · obtain ⟨hk, hg'⟩ := hwas k g hg
    have hcp' : (s.timers g.event).cpu = some k := (htimers g.event).1.symm.trans hcp
    rw [(hcurrent k hk).1] at hc
    show g.add = added.adds g.event ∨ _
    rw [hadds, hevents, hmem]
    exact (hfirings.again k g hg' hc hcp').imp_right .inr
  · show added.threadLock = some k
    rw [hlock]
    exact hfirings.locked k g (hwas k g hg).2 hr hacq
  · show added.starts e n = 0
    have hn' : added.adds e < n := hn
    rw [hst]
    exact hstarts.never e n (hadds ▸ hn')
  · have hp' : periodic (s.timers e).mode = false := (htimers e).2 ▸ hp
    show added.starts e (added.adds e) = 0
    rw [hevents, hmem] at he
    rw [hst, hadds]
    rcases he with ⟨ha, rfl, -⟩ | he
    · obtain ⟨hadd, -, hper⟩ := hsame ha
      rw [(hfirings.last c f hf hadd).2.1, hp'] at hper
      cases hper
    · exact hstarts.listed k e he hp'
  · show added.starts g.event g.add = 0
    rw [hst]
    exact hstarts.taken k g (hwas k g hg).2 ht hp
  · show added.starts e n ≤ 1
    rw [hst]
    exact hstarts.once e n
  · have hk' : s.calls c' = some (.poll e k) := by
      rw [← hcalls]
      exact hk
    have hc' : c' ≠ c := by
      rintro rfl
      rw [hcall] at hk'
      cases hk'
    obtain ⟨hne, hd⟩ := hcancels.polls c' e k hk'
    rw [inHook_congr (hother c' hc')]
    exact ⟨hne, fun hh => hdead e _ (hd hh)⟩

lemma System.Inv.fetch (hs : s.Inv) (hnone : s.interrupts c = none) (hcall : s.calls c = none)
    (now : ℤ) : (s.fetch c now).Inv := by
  unfold System.fetch
  cases hev : (s.cpus c).events with
  | nil => exact hs
  | cons event rest =>
    dsimp only
    by_cases hlate : bigtime now ≤ (s.timers event).scheduleTime
    · rw [if_neg (Int.not_lt.2 hlate)]
      exact hs
    rw [if_pos (Int.not_le.1 hlate)]
    obtain ⟨hlists, hfirings, hstarts, hcancels⟩ := hs
    set f : Firing T := ⟨event, (s.timers event).mode, s.adds event, .taken⟩ with hf
    set s' := ((s.setCPU c ⟨rest, some event, true⟩).setTimer event
      { s.timers event with scheduleTime := 0 }).setInterrupt c (some f) with hs'
    have hmem : event ∈ (s.cpus c).events := by
      rw [hev]
      exact List.mem_cons_self
    have hcpu := hlists.listed c event hmem
    obtain ⟨hnot, hnodup⟩ := List.nodup_cons.1 (hev ▸ hlists.nodup c)
    have hself : s'.interrupts c = some f := update_self _ _ _
    have hother : ∀ k ≠ c, s'.interrupts k = s.interrupts k :=
      fun k hk => update_of_ne hk _ _
    have hcpus : s'.cpus c = ⟨rest, some event, true⟩ := update_self _ _ _
    have hcpus' : ∀ k ≠ c, s'.cpus k = s.cpus k := fun k hk => update_of_ne hk _ _
    have htimers : ∀ e, (s'.timers e).cpu = (s.timers e).cpu ∧
        (s'.timers e).mode = (s.timers e).mode := by
      intro e
      show (update s.timers event _ e).cpu = _ ∧ (update s.timers event _ e).mode = _
      by_cases he : e = event
      · rw [he, update_self]
        exact ⟨rfl, rfl⟩
      · rw [update_of_ne he]
        exact ⟨rfl, rfl⟩
    -- the event is in no list any more
    have hevents : ∀ k e, e ∈ (s'.cpus k).events → e ∈ (s.cpus k).events ∧ e ≠ event := by
      intro k e he
      by_cases hk : k = c
      · subst hk
        rw [hcpus] at he
        refine ⟨by rw [hev]; exact List.mem_cons_of_mem _ he, ?_⟩
        rintro rfl
        exact hnot he
      · rw [hcpus' k hk] at he
        refine ⟨he, ?_⟩
        rintro rfl
        have hcpu' := hlists.listed k e he
        rw [hcpu] at hcpu'
        exact hk (Option.some.inj hcpu').symm
    have hwas : ∀ k g, s'.interrupts k = some g → (k = c ∧ g = f) ∨
        (k ≠ c ∧ s.interrupts k = some g) := by
      intro k g hg
      by_cases hk : k = c
      · rw [hk, hself] at hg
        exact .inl ⟨hk, (Option.some.inj hg).symm⟩
      · rw [hother k hk] at hg
        exact .inr ⟨hk, hg⟩
    -- no other interrupt is busy with what has been added last
    have hfresh : ∀ k g, s.interrupts k = some g → g.event = event → g.add ≠ s.adds event := by
      rintro k g hg rfl ha
      exact (hfirings.last k g hg ha).2.2 c hmem
    have hdead : ∀ e except, s.Dead e except → s'.Dead e except := by
      intro e except hd
      refine hd.of (fun k hk => (hevents k e hk).1) fun k g hg he => ?_
      rcases hwas k g hg with ⟨rfl, rfl⟩ | ⟨hk, hg'⟩
      · have he' : event = e := he
        exact absurd hmem (he' ▸ hd.unlisted k)
      · exact ⟨g, hg', he, rfl, fun hc => by rw [hcpus' k hk]; exact hc, id, .inl⟩
    have hsorted : ∀ k, (s'.cpus k).events.Pairwise fun a b =>
        (s.timers a).scheduleTime ≤ (s.timers b).scheduleTime := by
      intro k
      by_cases hk : k = c
      · rw [hk, hcpus]
        exact (List.pairwise_cons.1 (hev ▸ hlists.sorted c)).2
      · rw [hcpus' k hk]
        exact hlists.sorted k
    refine ⟨⟨fun k e he => ?_, fun k => ?_, fun k => ?_⟩, ⟨fun k e he => ?_,
      fun k g hg hst => ?_, fun k g hg => ?_, fun k g hg ha => ?_,
      fun k k' g g' hg hg' he ha => ?_, fun k g hg hp hc => ?_, fun k g hg hc hcp => ?_,
      fun k g hg hr hacq => ?_⟩,
      ⟨hstarts.never, fun k e he hp => ?_, fun k g hg ht hp => ?_, hstarts.once⟩,
      ⟨fun e he => hdead e none (hcancels.dead e he), fun c' e k hk => ?_⟩⟩
    · rw [(htimers e).1]
      exact hlists.listed k e (hevents k e he).1
    · by_cases hk : k = c
      · rw [hk, hcpus]
        exact hnodup
      · rw [hcpus' k hk]
        exact hlists.nodup k
    · refine (hsorted k).imp_of_mem fun {a b} ha hb hab => ?_
      have htime : ∀ e ≠ event, s'.timers e = s.timers e := fun e he => update_of_ne he _ _
      rw [htime a (hevents k a ha).2, htime b (hevents k b hb).2]
      exact hab
    · by_cases hk : k = c
      · rw [hk, hcpus] at he
        exact ⟨f, by rw [hk, hself], Option.some.inj he⟩
      · rw [hcpus' k hk] at he
        obtain ⟨g, hg, hge⟩ := hfirings.current k e he
        exact ⟨g, (hother k hk).trans hg, hge⟩
    · rcases hwas k g hg with ⟨rfl, rfl⟩ | ⟨hk, hg'⟩
      · rw [hcpus]
      · rw [hcpus' k hk]
        exact hfirings.progress k g hg' hst
    · rcases hwas k g hg with ⟨rfl, rfl⟩ | ⟨hk, hg'⟩
      · exact Nat.le_refl _
      · exact hfirings.bound k g hg'
    · rw [(htimers g.event).1, (htimers g.event).2]
      rcases hwas k g hg with ⟨rfl, rfl⟩ | ⟨hk, hg'⟩
      · exact ⟨hcpu, rfl, fun j hj => (hevents j event hj).2 rfl⟩
      · obtain ⟨hcp, hm, hfree⟩ := hfirings.last k g hg' ha
        exact ⟨hcp, hm, fun j hj => hfree j (hevents j g.event hj).1⟩
    · rcases hwas k g hg with ⟨rfl, rfl⟩ | ⟨hk, hg₁⟩ <;>
        rcases hwas k' g' hg' with ⟨rfl, rfl⟩ | ⟨hk', hg₂⟩
      · rfl
      · exact absurd ha.symm (hfresh k' g' hg₂ he.symm)
      · exact absurd ha (hfresh k g hg₁ he)
      · exact hfirings.distinct k k' g g' hg₁ hg₂ he ha
    · rcases hwas k g hg with ⟨rfl, rfl⟩ | ⟨hk, hg'⟩
      · rfl
      · rw [hcpus' k hk] at hc
        exact hfirings.periodic k g hg' hp hc
    · rcases hwas k g hg with ⟨rfl, rfl⟩ | ⟨hk, hg'⟩
      · exact .inl rfl
      · rw [hcpus' k hk] at hc
        rw [(htimers g.event).1] at hcp
        rw [hcpus' k hk]
        exact hfirings.again k g hg' hc hcp
    · rcases hwas k g hg with ⟨rfl, rfl⟩ | ⟨hk, hg'⟩
      · cases hr
      · exact hfirings.locked k g hg' hr hacq
    · rw [(htimers e).2] at hp
      exact hstarts.listed k e (hevents k e he).1 hp
    · rcases hwas k g hg with ⟨rfl, rfl⟩ | ⟨hk, hg'⟩
      · exact hstarts.listed k event hmem hp
      · exact hstarts.taken k g hg' ht hp
    · have hc' : c' ≠ c := by
        rintro rfl
        have hk' : s.calls c' = some (.poll e k) := hk
        rw [hcall] at hk'
        cases hk'
      obtain ⟨hne, hd⟩ := hcancels.polls c' e k hk
      rw [inHook_congr (hother c' hc')]
      exact ⟨hne, fun hh => hdead e _ (hd hh)⟩

end Haiku.Timers
