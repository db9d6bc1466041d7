import Haiku.Timers.InterruptTheorems

/-!
# Adding and cancelling timers keeps the invariants
-/

namespace Haiku.Timers

open Function Lib

variable {T C : Type} [DecidableEq T] [DecidableEq C]

variable {s s' : System T C} {c k : C} {event : T} {f : Firing T}

/-! ## `add_timer()` -/

lemma System.Inv.addTimer (hs : s.Inv) (hfree : ∀ k, event ∉ (s.cpus k).events)
    (hmay : s.MayAdd event) (hook : ℕ) (period : ℤ) (flags : BitVec 32) (now : ℤ) :
    (s.addTimer c event hook period flags now).Inv := by
  unfold System.addTimer
  by_cases hbad : hook = 0 ∨ period < 0
  · rw [if_pos hbad]
    exact hs
  rw [if_neg hbad]
  obtain ⟨hlists, hfirings, hstarts, hcancels⟩ := hs
  dsimp only
  generalize (if (if flags &&& ~~~B_TIMER_FLAGS ≠ B_ONE_SHOT_ABSOLUTE_TIMER then
    bigtime (period + now) else bigtime period) = 0 then (1 : ℤ) else _) = time
  set timer : Timer C := ⟨time, flags.setWidth 16, some c, hook, period⟩
  have hnew := hlists.enlist (c := c) hfree (show timer.cpu = some c from rfl)
  set s' : System T C := { (s.setTimer event timer).enlist c event with
    adds := update s.adds event (s.adds event + 1)
    cancelled := update s.cancelled event false } with hs'
  have hmem : ∀ j e, e ∈ (s'.cpus j).events ↔ (e = event ∧ j = c) ∨ e ∈ (s.cpus j).events :=
    fun j e => mem_enlist
  have hcpus : ∀ j, (s'.cpus j).currentEvent = (s.cpus j).currentEvent ∧
      (s'.cpus j).currentEventInProgress = (s.cpus j).currentEventInProgress := by
    intro j
    show (update s.cpus c _ j).currentEvent = _ ∧
      (update s.cpus c _ j).currentEventInProgress = _
    by_cases hj : j = c
    · rw [hj, update_self]
      exact ⟨rfl, rfl⟩
    · rw [update_of_ne hj]
      exact ⟨rfl, rfl⟩
  have hadds : s'.adds event = s.adds event + 1 := update_self _ _ _
  have hadds' : ∀ e ≠ event, s'.adds e = s.adds e := fun e he => update_of_ne he _ _
  have hle : ∀ e, s.adds e ≤ s'.adds e := by
    intro e
    by_cases he : e = event
    · rw [he, hadds]
      exact Nat.le_succ _
    · exact Nat.le_of_eq (hadds' e he).symm
  have hset : s'.timers event = timer := update_self _ _ _
  have hset' : ∀ e ≠ event, s'.timers e = s.timers e := fun e he => update_of_ne he _ _
  have hdead : ∀ e ≠ event, ∀ except, s.Dead e except → s'.Dead e except := by
    intro e he except hd
    refine hd.of (fun j hj => ((hmem j e).1 hj).resolve_left fun h => he h.1) fun j g hg hge => ?_
    exact ⟨g, hg, hge, rfl, fun hc => (hcpus j).1.trans hc, id, .inl⟩
  refine ⟨⟨hnew.listed, hnew.nodup, hnew.sorted⟩, ⟨fun j e he => ?_, fun j g hg hst => ?_,
    fun j g hg => ?_, fun j g hg ha => ?_, hfirings.distinct, fun j g hg hp hc => ?_,
    fun j g hg hc hcp => ?_, hfirings.locked⟩,
    ⟨fun e n hn => ?_, fun j e he hp => ?_, hstarts.taken, hstarts.once⟩,
    ⟨fun e he => ?_, fun c' e j hj => ?_⟩⟩
  · rw [(hcpus j).1] at he
    exact hfirings.current j e he
  · rw [(hcpus j).2]
    exact hfirings.progress j g hg hst
  · exact Nat.le_trans (hfirings.bound j g hg) (hle g.event)
  · have hbound := hfirings.bound j g hg
    have hne : g.event ≠ event := by
      intro he
      rw [he, hadds] at ha
      rw [he] at hbound
      omega
    rw [hadds' _ hne] at ha
    obtain ⟨hcpu, hm, hnot⟩ := hfirings.last j g hg ha
    rw [hset' _ hne]
    exact ⟨hcpu, hm, fun i hi => hnot i (((hmem i _).1 hi).resolve_left fun h => hne h.1)⟩
  · rw [(hcpus j).1] at hc
    by_cases he : g.event = event
    · exact absurd (he ▸ hc) (hmay.firings j g hg he hp)
    · rw [hadds' _ he]
      exact hfirings.periodic j g hg hp hc
  · rw [(hcpus j).1] at hc
    rw [hmem]
    by_cases he : g.event = event
    · rw [he, hset] at hcp
      exact .inr (.inl ⟨he, (Option.some.inj hcp).symm⟩)
    · rw [hset' _ he] at hcp
      rw [hadds' _ he]
      exact (hfirings.again j g hg hc hcp).imp_right .inr
  · exact hstarts.never e n (Nat.lt_of_le_of_lt (hle e) hn)
  · by_cases hee : e = event
    · rw [hee, hadds]
      exact hstarts.never event _ (Nat.lt_succ_self _)
    · rw [hset' e hee] at hp
      rw [hadds' e hee]
      exact hstarts.listed j e (((hmem j e).1 he).resolve_left fun h => hee h.1) hp
  · have hne : e ≠ event := by
      rintro rfl
      have hfalse : s'.cancelled e = false := update_self _ _ _
      rw [hfalse] at he
      cases he
    have he' : s.cancelled e = true := (update_of_ne hne _ _).symm.trans he
    exact hdead e hne none (hcancels.dead e he')
  · obtain ⟨hne, hd⟩ := hcancels.polls c' e j hj
    refine ⟨hne, fun hh => ?_⟩
    by_cases he : e = event
    · subst he
      have hin := hmay.polls c' j hj
      have hout : s.inHook c' e = false := hh
      rw [hin] at hout
      cases hout
    · exact hdead e he _ (hd hh)

/-! ## `cancel_timer()` -/

lemma System.Inv.setCall (hs : s.Inv) {call : Option (Call T C)}
    (hpoll : ∀ e k, call = some (.poll e k) →
      k ≠ c ∧ (s.inHook c e = false → s.Dead e (some k))) : (s.setCall c call).Inv := by
  obtain ⟨hlists, hfirings, hstarts, hcancels⟩ := hs
  have hdead : ∀ e except, s.Dead e except → (s.setCall c call).Dead e except :=
    fun e except h => ⟨h.unlisted, h.running, h.taken, h.again⟩
  refine ⟨⟨hlists.listed, hlists.nodup, hlists.sorted⟩, ⟨hfirings.current, hfirings.progress,
    hfirings.bound, hfirings.last, hfirings.distinct, hfirings.periodic, hfirings.again,
    hfirings.locked⟩, ⟨hstarts.never, hstarts.listed, hstarts.taken, hstarts.once⟩,
    ⟨fun e he => hdead e none (hcancels.dead e he), fun c' e k hk => ?_⟩⟩
  have hk' : update s.calls c call c' = some (.poll e k) := hk
  by_cases hc : c' = c
  · subst hc
    rw [update_self] at hk'
    exact ⟨(hpoll e k hk').1, fun hh => hdead e _ ((hpoll e k hk').2 hh)⟩
  · rw [update_of_ne hc] at hk'
    obtain ⟨hne, hd⟩ := hcancels.polls c' e k hk'
    exact ⟨hne, fun hh => hdead e _ (hd hh)⟩

lemma System.Inv.leave (hs : s.Inv)
    (hdead : s.inHook c event = false →
      (acquires (s.timers event).mode = true → s.threadLock = some c) → s.Dead event none) :
    (s.leave c event).Inv := by
  have hset : (s.setCall c none).Inv := hs.setCall nofun
  have hsame : ∀ e except, (s.setCall c none).Dead e except → (s.leave c event).Dead e except :=
    fun e except h => ⟨h.unlisted, h.running, h.taken, h.again⟩
  obtain ⟨hlists, hfirings, hstarts, hcancels⟩ := hset
  refine ⟨⟨hlists.listed, hlists.nodup, hlists.sorted⟩, ⟨hfirings.current, hfirings.progress,
    hfirings.bound, hfirings.last, hfirings.distinct, hfirings.periodic, hfirings.again,
    hfirings.locked⟩, ⟨hstarts.never, hstarts.listed, hstarts.taken, hstarts.once⟩,
    ⟨fun e he => ?_, fun c' e k hk => ?_⟩⟩
  · have hc : update s.cancelled event (s.cancelled event || (!s.inHook c event &&
        (!acquires (s.timers event).mode || s.threadLock = some c))) e = true := he
    by_cases hee : e = event
    · subst hee
      rw [update_self, Bool.or_eq_true] at hc
      rcases hc with hc | hc
      · exact hsame e none (hcancels.dead e hc)
      · rw [Bool.and_eq_true, Bool.not_eq_true', Bool.or_eq_true, Bool.not_eq_true',
          decide_eq_true_iff] at hc
        have hd := hdead hc.1 fun ha => hc.2.resolve_left (by rw [ha]; exact nofun)
        exact ⟨hd.unlisted, hd.running, hd.taken, hd.again⟩
    · rw [update_of_ne hee] at hc
      exact hsame e none (hcancels.dead e hc)
  · obtain ⟨hne, hd⟩ := hcancels.polls c' e k hk
    exact ⟨hne, fun hh => hsame e _ (hd hh)⟩

omit [DecidableEq C] in
lemma System.Inv.dead (hs : s.Inv)
    (hstop : ∀ k f, s.interrupts k = some f → f.event = event → s.Stoppable k f)
    (hcurrent : ∀ k, (s.timers event).cpu = some k → (s.cpus k).currentEvent ≠ some event)
    (hfree : ∀ k, event ∉ (s.cpus k).events) : s.Dead event none := by
  have hstop' : ∀ k f, s.interrupts k = some f → f.event = event → f.stage = .ended ∨
      (f.stage = .taken ∧ acquires f.mode = true ∧ (s.cpus k).currentEvent = none) := by
    rintro k f hf rfl
    exact (hstop k f hf rfl).resolve_left fun h => hcurrent k h.1 h.2
  refine ⟨hfree, fun k f hf he hr => ?_, fun k f hf he ht => ?_, fun k f hf he hp => ?_⟩
  · rcases hstop' k f hf he with h | h
    · cases hr.symm.trans h
    · cases hr.symm.trans h.1
  · rcases hstop' k f hf he with h | h
    · cases ht.symm.trans h
    · exact .inr h.2
  · cases hc : (s.cpus k).currentEvent with
    | none => rfl
    | some e =>
      obtain ⟨g, hg, hge⟩ := hs.firings.current k e hc
      rw [hf] at hg
      cases hg
      have hc' : (s.cpus k).currentEvent = some f.event := by rw [hc, hge]
      have hlast := hs.firings.last k f hf (hs.firings.periodic k f hf hp hc')
      rw [he] at hlast hc'
      exact absurd hc' (hcurrent k hlast.1)

lemma System.Inv.remove (hs : s.Inv) (hcpu : (s.timers event).cpu = some k)
    (hmem : event ∈ (s.cpus k).events) :
    ((s.setCPU k { s.cpus k with events := (s.cpus k).events.erase event }).setTimer event
      { s.timers event with cpu := none }).Inv ∧
    ∀ j, event ∉ (((s.setCPU k { s.cpus k with events := (s.cpus k).events.erase event }).setTimer
      event { s.timers event with cpu := none }).cpus j).events := by
  obtain ⟨hlists, hfirings, hstarts, hcancels⟩ := hs
  set s' := (s.setCPU k { s.cpus k with events := (s.cpus k).events.erase event }).setTimer event
    { s.timers event with cpu := none } with hs'
  have hcpus : ∀ j, (s'.cpus j).currentEvent = (s.cpus j).currentEvent ∧
      (s'.cpus j).currentEventInProgress = (s.cpus j).currentEventInProgress := by
    intro j
    show (update s.cpus k _ j).currentEvent = _ ∧
      (update s.cpus k _ j).currentEventInProgress = _
    by_cases hj : j = k
    · rw [hj, update_self]
      exact ⟨rfl, rfl⟩
    · rw [update_of_ne hj]
      exact ⟨rfl, rfl⟩
  have hevents : ∀ j, (s'.cpus j).events =
      if j = k then (s.cpus k).events.erase event else (s.cpus j).events := by
    intro j
    show (update s.cpus k _ j).events = _
    by_cases hj : j = k
    · rw [hj, update_self, if_pos rfl]
    · rw [update_of_ne hj, if_neg hj]
  have hsub : ∀ j, (s'.cpus j).events.Sublist (s.cpus j).events := by
    intro j
    rw [hevents]
    split_ifs with hj
    · rw [hj]
      exact List.erase_sublist
    · exact .refl _
  have hfree : ∀ j, event ∉ (s'.cpus j).events := by
    intro j hj
    have hcpu' := hlists.listed j event ((hsub j).subset hj)
    rw [hcpu] at hcpu'
    have hjk : j = k := (Option.some.inj hcpu').symm
    rw [hevents, if_pos hjk] at hj
    exact (hlists.nodup k).not_mem_erase hj
  have hne : ∀ j e, e ∈ (s'.cpus j).events → e ≠ event := by
    rintro j e he rfl
    exact hfree j he
  have hset : ∀ e ≠ event, s'.timers e = s.timers e := fun e he => update_of_ne he _ _
  have hsetEvent : s'.timers event = { s.timers event with cpu := none } :=
    update_self _ _ _
  have hdead : ∀ e except, s.Dead e except → s'.Dead e except := fun e except hd =>
    hd.of (fun j hj => (hsub j).subset hj) fun j g hg he =>
      ⟨g, hg, he, rfl, fun hc => (hcpus j).1.trans hc, id, .inl⟩
  refine ⟨⟨⟨fun j e he => ?_, fun j => (hlists.nodup j).sublist (hsub j), fun j => ?_⟩,
    ⟨fun j e he => ?_, fun j g hg hst => ?_, hfirings.bound, fun j g hg ha => ?_,
    hfirings.distinct, fun j g hg hp hc => ?_, fun j g hg hc hcp => ?_, hfirings.locked⟩,
    ⟨hstarts.never, fun j e he hp => ?_, hstarts.taken, hstarts.once⟩,
    ⟨fun e he => hdead e none (hcancels.dead e he), fun c' e j hj => ?_⟩⟩, hfree⟩
  · rw [hset e (hne j e he)]
    exact hlists.listed j e ((hsub j).subset he)
  · refine ((hlists.sorted j).sublist (hsub j)).imp_of_mem fun {a b} ha hb hab => ?_
    rw [hset a (hne j a ha), hset b (hne j b hb)]
    exact hab
  · rw [(hcpus j).1] at he
    exact hfirings.current j e he
  · rw [(hcpus j).2]
    exact hfirings.progress j g hg hst
  · obtain ⟨hcp, hm, hnot⟩ := hfirings.last j g hg ha
    have hge : g.event ≠ event := by
      intro he
      exact hnot k (he ▸ hmem)
    rw [hset _ hge]
    exact ⟨hcp, hm, fun i hi => hnot i ((hsub i).subset hi)⟩
  · rw [(hcpus j).1] at hc
    exact hfirings.periodic j g hg hp hc
  · rw [(hcpus j).1] at hc
    have hge : g.event ≠ event := by
      intro he
      rw [he, hsetEvent] at hcp
      cases hcp
    rw [hset _ hge] at hcp
    refine (hfirings.again j g hg hc hcp).imp_right fun hm => ?_
    rw [hevents]
    split_ifs with hj
    · exact (List.mem_erase_of_ne hge).2 (hj ▸ hm)
    · exact hm
  · rw [hset e (hne j e he)] at hp
    exact hstarts.listed j e ((hsub j).subset he) hp
  · obtain ⟨hne', hd⟩ := hcancels.polls c' e j hj
    exact ⟨hne', fun hh => hdead e _ (hd hh)⟩

lemma System.Inv.clear (hs : s.Inv) (k : C) :
    (s.setCPU k { s.cpus k with currentEvent := none }).Inv := by
  obtain ⟨hlists, hfirings, hstarts, hcancels⟩ := hs
  set s' := s.setCPU k { s.cpus k with currentEvent := none }
  have hcpus : ∀ j, (s'.cpus j).events = (s.cpus j).events ∧
      (s'.cpus j).currentEventInProgress = (s.cpus j).currentEventInProgress := by
    intro j
    show (update s.cpus k _ j).events = _ ∧
      (update s.cpus k _ j).currentEventInProgress = _
    by_cases hj : j = k
    · rw [hj, update_self]
      exact ⟨rfl, rfl⟩
    · rw [update_of_ne hj]
      exact ⟨rfl, rfl⟩
  have hcurrent : ∀ j e, (s'.cpus j).currentEvent = some e → (s.cpus j).currentEvent = some e := by
    intro j e he
    have he' : (update s.cpus k { s.cpus k with currentEvent := none } j).currentEvent =
      some e := he
    by_cases hj : j = k
    · rw [hj, update_self] at he'
      cases he'
    · rw [update_of_ne hj] at he'
      exact he'
  have hnone : ∀ j, (s.cpus j).currentEvent = none → (s'.cpus j).currentEvent = none := by
    intro j hj
    cases hc : (s'.cpus j).currentEvent with
    | none => rfl
    | some e =>
      rw [hcurrent j e hc] at hj
      cases hj
  have hdead : ∀ e except, s.Dead e except → s'.Dead e except := fun e except hd =>
    hd.of (fun j hj => (hcpus j).1 ▸ hj) fun j g hg he =>
      ⟨g, hg, he, rfl, hnone j, id, .inl⟩
  refine ⟨⟨fun j e he => hlists.listed j e ((hcpus j).1 ▸ he), fun j => (hcpus j).1 ▸ hlists.nodup j,
    fun j => (hcpus j).1 ▸ hlists.sorted j⟩,
    ⟨fun j e he => hfirings.current j e (hcurrent j e he), fun j g hg hst => ?_, hfirings.bound,
      fun j g hg ha => ?_, hfirings.distinct,
      fun j g hg hp hc => hfirings.periodic j g hg hp (hcurrent j _ hc),
      fun j g hg hc hcp => ?_, hfirings.locked⟩,
    ⟨hstarts.never, fun j e he => hstarts.listed j e ((hcpus j).1 ▸ he), hstarts.taken,
      hstarts.once⟩,
    ⟨fun e he => hdead e none (hcancels.dead e he), fun c' e j hj => ?_⟩⟩
  · rw [(hcpus j).2]
    exact hfirings.progress j g hg hst
  · obtain ⟨hcp, hm, hnot⟩ := hfirings.last j g hg ha
    exact ⟨hcp, hm, fun i hi => hnot i ((hcpus i).1 ▸ hi)⟩
  · rw [(hcpus j).1]
    exact hfirings.again j g hg (hcurrent j _ hc) hcp
  · obtain ⟨hne, hd⟩ := hcancels.polls c' e j hj
    exact ⟨hne, fun hh => hdead e _ (hd hh)⟩

lemma System.Inv.dead_clear (hs : s.Inv) (hcpu : (s.timers event).cpu = some k)
    (hcurrent : (s.cpus k).currentEvent = some event)
    (hstop : ∀ k f, s.interrupts k = some f → f.event = event → s.Stoppable k f)
    (hlisted : event ∉ (s.cpus k).events) :
    (s.setCPU k { s.cpus k with currentEvent := none }).Dead event (some k) := by
  set s' := s.setCPU k { s.cpus k with currentEvent := none }
  have hself : (s'.cpus k).currentEvent = none ∧ (s'.cpus k).events = (s.cpus k).events := by
    show (update s.cpus k _ k).currentEvent = none ∧
      (update s.cpus k _ k).events = _
    rw [update_self]
    exact ⟨rfl, rfl⟩
  have hother : ∀ j ≠ k, s'.cpus j = s.cpus j := fun j hj => update_of_ne hj _ _
  -- the other CPUs do not have the timer
  have hcpu' : ∀ j ≠ k, (s.timers event).cpu ≠ some j := by
    intro j hj hc
    rw [hcpu] at hc
    exact hj (Option.some.inj hc).symm
  have hstop' : ∀ j ≠ k, ∀ f, s.interrupts j = some f → f.event = event → f.stage = .ended ∨
      (f.stage = .taken ∧ acquires f.mode = true ∧ (s.cpus j).currentEvent = none) := by
    rintro j hj f hf rfl
    exact (hstop j f hf rfl).resolve_left fun h => hcpu' j hj h.1
  refine ⟨fun j hj => ?_, fun j f hf he hr => ?_, fun j f hf he ht => ?_, fun j f hf he hp => ?_⟩
  · by_cases hjk : j = k
    · rw [hjk, hself.2] at hj
      exact hlisted hj
    · rw [hother j hjk] at hj
      exact hcpu' j hjk (hs.lists.listed j event hj)
  · by_cases hjk : j = k
    · rw [hjk]
    · rcases hstop' j hjk f hf he with h | h
      · cases hr.symm.trans h
      · cases hr.symm.trans h.1
  · by_cases hjk : j = k
    · rw [hjk]
      exact .inl rfl
    · rcases hstop' j hjk f hf he with h | h
      · cases ht.symm.trans h
      · rw [hother j hjk]
        exact .inr h.2
  · by_cases hjk : j = k
    · rw [hjk]
      exact hself.1
    · rw [hother j hjk]
      cases hc : (s.cpus j).currentEvent with
      | none => rfl
      | some e =>
        obtain ⟨g, hg, hge⟩ := hs.firings.current j e hc
        rw [show s.interrupts j = some f from hf] at hg
        cases hg
        have hc' : (s.cpus j).currentEvent = some f.event := by rw [hc, hge]
        have hlast := hs.firings.last j f hf (hs.firings.periodic j f hf hp hc')
        rw [he] at hlast
        exact absurd hlast.1 (hcpu' j hjk)

omit [DecidableEq T] [DecidableEq C] in
lemma System.Dead.of_ended (hd : s.Dead event (some k))
    (hended : ∀ f, s.interrupts k = some f → f.event = event → f.stage ≠ .running)
    (htaken : ∀ f, s.interrupts k = some f → f.event = event → f.stage = .taken →
      acquires f.mode = true ∧ (s.cpus k).currentEvent = none) : s.Dead event none := by
  refine ⟨hd.unlisted, fun j f hf he hr => ?_, fun j f hf he ht => ?_, hd.again⟩
  · cases hd.running j f hf he hr
    exact absurd hr (hended f hf he)
  · rcases hd.taken j f hf he ht with h | h
    · cases h
      exact .inr (htaken f hf he ht)
    · exact .inr h

lemma System.Inv.cancelTimer (hs : s.Inv) (hcpu : (s.timers event).cpu = some k)
    (hmay : s.MayCancel c event) : (s.cancelTimer c event k).Inv := by
  unfold System.cancelTimer
  dsimp only
  by_cases hcurrent : (s.cpus k).currentEvent = some event
  · rw [if_neg (by rw [hcurrent]; exact fun h => h rfl)]
    have hne : k ≠ c := by
      rintro rfl
      exact hmay.self hcpu hcurrent
    have hclear := hs.clear k
    have hself : ((s.setCPU k { s.cpus k with currentEvent := none }).cpus k).currentEvent =
        none := by
      show (update s.cpus k _ k).currentEvent = none
      rw [update_self]
    by_cases hacq : acquires (s.timers event).mode = true
    · rw [if_neg (by rw [hacq, decide_eq_false hne]; exact nofun)]
      refine hclear.leave fun hout hlock => ?_
      have hout' : s.inHook c event = false := hout
      have hlock' : acquires (s.timers event).mode = true → s.threadLock = some c := hlock
      have hlisted := hmay.listed hout' hlock' k hcpu hcurrent
      have hd := hs.dead_clear hcpu hcurrent (hmay.firings hout' hlock') hlisted
      -- the hook runs with the thread lock held, which the caller holds
      have hmode : ∀ f, s.interrupts k = some f → f.event = event → acquires f.mode = true := by
        rintro f hf rfl
        have hadd := (hs.firings.again k f hf hcurrent hcpu).resolve_right hlisted
        rw [(hs.firings.last k f hf hadd).2.1]
        exact hacq
      refine hd.of_ended (fun f hf he hr => ?_) fun f hf he _ => ⟨hmode f hf he, hself⟩
      have hheld := hs.firings.locked k f hf hr (hmode f hf he)
      rw [hlock' hacq] at hheld
      exact hne (Option.some.inj hheld).symm
    · have hfalse : acquires (s.timers event).mode = false := Bool.eq_false_iff.2 hacq
      rw [if_pos (by rw [hfalse]; rfl)]
      refine hclear.setCall fun e j hj => ?_
      cases hj
      refine ⟨hne, fun hout => ?_⟩
      have hout' : s.inHook c event = false := hout
      have hlock : acquires (s.timers event).mode = true → s.threadLock = some c :=
        fun h => absurd h hacq
      exact hs.dead_clear hcpu hcurrent (hmay.firings hout' hlock)
        (hmay.listed hout' hlock k hcpu hcurrent)
  · rw [if_pos hcurrent]
    have hcpus : ∀ j, (s.timers event).cpu = some j → (s.cpus j).currentEvent ≠ some event := by
      intro j hj
      rw [hcpu] at hj
      cases hj
      exact hcurrent
    by_cases hmem : event ∈ (s.cpus k).events
    · rw [if_pos hmem]
      obtain ⟨hinv, hfree⟩ := hs.remove hcpu hmem
      refine hinv.leave fun hout hlock => ?_
      have hmode : (update s.timers event { s.timers event with cpu := none } event).mode =
          (s.timers event).mode := by
        rw [update_self]
        rfl
      have hlock' : acquires (s.timers event).mode = true → s.threadLock = some c := by
        intro ha
        exact hlock (by rw [← hmode] at ha; exact ha)
      have hnone : (update s.timers event { s.timers event with cpu := none } event).cpu =
          none := by
        rw [update_self]
      refine hinv.dead (fun j f hf he => ?_) (fun j hj => ?_) hfree
      · rcases hmay.firings hout hlock' j f hf he with h | h | ⟨ht, ha, hc⟩
        · exact absurd (he ▸ h.2) (hcpus j (he ▸ h.1))
        · exact .inr (.inl h)
        · refine .inr (.inr ⟨ht, ha, ?_⟩)
          show (update s.cpus k _ j).currentEvent = none
          by_cases hj : j = k
          · rw [hj, update_self]
            exact hj ▸ hc
          · rw [update_of_ne hj]
            exact hc
      · have hj' : (update s.timers event { s.timers event with cpu := none } event).cpu =
          some j := hj
        rw [hnone] at hj'
        cases hj'
    · rw [if_neg hmem]
      refine hs.leave fun hout hlock => ?_
      refine hs.dead (hmay.firings hout hlock) hcpus fun j hj => ?_
      have hcpu' := hs.lists.listed j event hj
      rw [hcpu] at hcpu'
      cases hcpu'
      exact hmem hj

lemma System.Inv.go (hs : s.Inv) {call : Call T C} (hcall : s.calls c = some call)
    (hmay : ∀ event, s.decides call = some event → s.MayCancel c event) : (s.go c call).Inv := by
  cases call with
  | read event =>
    unfold System.go
    dsimp only
    cases hcpu : (s.timers event).cpu with
    | none =>
      have hm := hmay event (by unfold System.decides; dsimp only; rw [hcpu]; rfl)
      refine hs.leave fun hout hlock => hs.dead (hm.firings hout hlock) (fun j hj => ?_)
        fun j hj => ?_
      · rw [hcpu] at hj
        cases hj
      · rw [hs.lists.listed j event hj] at hcpu
        cases hcpu
    | some k => exact hs.setCall nofun
  | lock event k =>
    unfold System.go
    dsimp only
    by_cases hcpu : (s.timers event).cpu = some k
    · rw [if_pos hcpu]
      refine hs.cancelTimer hcpu (hmay event ?_)
      unfold System.decides
      dsimp only
      rw [if_pos hcpu]
    · rw [if_neg hcpu]
      exact hs.setCall nofun
  | poll event k =>
    unfold System.go
    dsimp only
    by_cases hprogress : (s.cpus k).currentEventInProgress = true
    · rw [if_pos hprogress]
      exact hs
    · rw [if_neg hprogress]
      refine hs.leave fun hout _ => ?_
      have hd := (hs.cancels.polls c event k hcall).2 hout
      have hended : ∀ f, s.interrupts k = some f → f.stage = .ended := by
        intro f hf
        by_contra hne
        exact hprogress (hs.firings.progress k f hf hne)
      refine hd.of_ended (fun f hf _ hr => ?_) fun f hf _ ht => ?_
      · cases (hended f hf).symm.trans hr
      · cases (hended f hf).symm.trans ht

end Haiku.Timers
