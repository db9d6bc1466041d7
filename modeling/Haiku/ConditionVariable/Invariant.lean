import Haiku.ConditionVariable.Basic

/-!
# The invariant

An entry is on the list of its variable, or on none, and its status says whether its thread has
announced that it waits. A thread that waits with an entry which is on no list has been woken.
-/

namespace Haiku.ConditionVariable

open Function

variable {T E V O : Type}

namespace State

/-- The call of `Wait()` for the entry, now or later, returns the result. -/
structure Owes (s : State T E V O) (e : E) (result : ℤ) : Prop where
  off : (s.entries e).fVariable = none
  later : (∀ t, ¬ s.InWait t e) → (s.entries e).fWaitStatus = result
  now : ∀ t, s.InWait t e → s.waitStatus t = result

/-- The call of `Wait()` for the entry ends with the result, or the result is still owed. -/
def Settles (s : State T E V O) (returned : Option (E × ℤ)) (e : E) (result : ℤ) : Prop :=
  returned = some (e, result) ∨ returned.map Prod.fst ≠ some e ∧ s.Owes e result

/-! ## The invariant -/

structure Inv (s : State T E V O) : Prop where
  listed : ∀ e v, e ∈ s.fEntries v ↔ (s.entries e).fVariable = some v
  nodup : ∀ v, (s.fEntries v).Nodup
  added : ∀ e v, (s.entries e).fVariable = some v → (∀ t, ¬ s.InWait t e) →
    (s.entries e).fWaitStatus = statusAdded
  waiting : ∀ e v t, (s.entries e).fVariable = some v → s.InWait t e →
    (s.entries e).fWaitStatus = statusWaiting
  thread : ∀ t e, s.InWait t e → (s.entries e).fThread = some t
  woken : ∀ t e, s.InWait t e → (s.entries e).fVariable = none → s.waitStatus t ≠ 1
  leaving : ∀ t e error, s.phases t = .leaving e error → s.waitStatus t = error ∧ error ≠ 1

lemma inv_init : (init : State T E V O).Inv where
  listed e v := by simp [init]
  nodup v := List.nodup_nil
  added e v h := by cases h
  waiting e v t h := by cases h
  thread t e h := by cases h
  woken t e h := by cases h
  leaving t e error h := by cases h

variable {s s' : State T E V O} {t t' : T} {e e' : E} {v v' : V} {l : List E} {result status : ℤ}
  {object : O} {entry : ConditionVariableEntry T V}

lemma InWait.entry_eq (h : s.InWait t e) (h' : s.InWait t e') : e = e' := by
  unfold InWait at h h'
  rw [h] at h'
  exact Option.some.inj h'

lemma Inv.thread_eq (h : s.Inv) (ht : s.InWait t e) (ht' : s.InWait t' e) : t = t' := by
  have hthread := h.thread t e ht
  rw [h.thread t' e ht'] at hthread
  exact (Option.some.inj hthread).symm

lemma Inv.status_pos (h : s.Inv) (he : (s.entries e).fVariable = some v) :
    ¬ (s.entries e).fWaitStatus ≤ 0 := by
  by_cases hwait : ∃ t, s.InWait t e
  · obtain ⟨t, ht⟩ := hwait
    rw [h.waiting e v t he ht]
    decide
  · rw [h.added e v he fun t ht => hwait ⟨t, ht⟩]
    decide
lemma Inv.of_same (h : s.Inv) (hentries : s'.entries = s.entries)
    (hlists : s'.fEntries = s.fEntries) (hstatus : s'.waitStatus = s.waitStatus)
    (hphases : s'.phases = s.phases) :
    s'.Inv ∧ ∀ e owed, s.Owes e owed → s'.Owes e owed := by
  have hwait : ∀ t e, s'.InWait t e ↔ s.InWait t e := by
    intro t e
    unfold InWait
    rw [hphases]
  constructor
  · constructor
    · rw [hentries, hlists]
      exact h.listed
    · rw [hlists]
      exact h.nodup
    · rw [hentries]
      exact fun e v hv hnot => h.added e v hv fun t ht => hnot t ((hwait t e).2 ht)
    · rw [hentries]
      exact fun e v t hv ht => h.waiting e v t hv ((hwait t e).1 ht)
    · rw [hentries]
      exact fun t e ht => h.thread t e ((hwait t e).1 ht)
    · rw [hentries, hstatus]
      exact fun t e ht => h.woken t e ((hwait t e).1 ht)
    · rw [hphases, hstatus]
      exact h.leaving
  · intro e owed howes
    constructor
    · rw [hentries]
      exact howes.off
    · rw [hentries]
      exact fun hnot => howes.later fun t ht => hnot t ((hwait t e).2 ht)
    · rw [hstatus]
      exact fun t ht => howes.now t ((hwait t e).1 ht)
/-! ## Threads -/

section

variable [DecidableEq T]

lemma unblock_status (s : State T E V O) (t t' : T) (status : ℤ) :
    (s.unblock t status).waitStatus t' =
      if t' = t ∧ s.waitStatus t = 1 then status else s.waitStatus t' := by
  unfold unblock
  by_cases hone : s.waitStatus t = 1
  · rw [if_pos hone]
    unfold setStatus
    by_cases ht : t' = t
    · rw [if_pos ⟨ht, hone⟩, ht]
      exact update_self _ _ _
    · rw [if_neg fun h => ht h.1]
      exact update_of_ne ht _ _
  · rw [if_neg hone, if_neg fun h => hone h.2]

@[simp] lemma entries_unblock (s : State T E V O) (t : T) (status : ℤ) :
    (s.unblock t status).entries = s.entries := by
  unfold unblock
  split <;> rfl

@[simp] lemma fEntries_unblock (s : State T E V O) (t : T) (status : ℤ) :
    (s.unblock t status).fEntries = s.fEntries := by
  unfold unblock
  split <;> rfl

@[simp] lemma phases_unblock (s : State T E V O) (t : T) (status : ℤ) :
    (s.unblock t status).phases = s.phases := by
  unfold unblock
  split <;> rfl

lemma Inv.unblock (h : s.Inv) (t : T) (status : ℤ) : (s.unblock t status).Inv := by
  have hkept : ∀ t', s.waitStatus t' ≠ 1 →
      (s.unblock t status).waitStatus t' = s.waitStatus t' := by
    intro t' ht'
    rw [unblock_status, if_neg]
    intro hnot
    rw [hnot.1] at ht'
    exact ht' hnot.2
  constructor
  · rw [entries_unblock, fEntries_unblock]
    exact h.listed
  · rw [fEntries_unblock]
    exact h.nodup
  · unfold InWait
    rw [entries_unblock, phases_unblock]
    exact h.added
  · unfold InWait
    rw [entries_unblock, phases_unblock]
    exact h.waiting
  · unfold InWait
    rw [entries_unblock, phases_unblock]
    exact h.thread
  · unfold InWait
    rw [entries_unblock, phases_unblock]
    intro t' e ht' hoff
    have hwoken := h.woken t' e ht' hoff
    rw [hkept t' hwoken]
    exact hwoken
  · rw [phases_unblock]
    intro t' e error hphase
    obtain ⟨herror, hone⟩ := h.leaving t' e error hphase
    rw [hkept t' (by rw [herror]; exact hone)]
    exact ⟨herror, hone⟩

lemma Inv.setPhase (h : s.Inv) (ht : s.InWait t e) {phase : Phase E}
    (hphase : phase.entry = some e ∨ phase.entry = none ∧ (s.entries e).fVariable = none)
    (hleaving : ∀ e error, phase = .leaving e error → s.waitStatus t = error ∧ error ≠ 1) :
    (s.setPhase t phase).Inv := by
  have hself : (s.setPhase t phase).phases t = phase := update_self _ _ _
  have hother : ∀ t', t' ≠ t → (s.setPhase t phase).phases t' = s.phases t' :=
    fun t' hne => update_of_ne hne _ _
  have hbefore : ∀ t' e', (s.setPhase t phase).InWait t' e' → s.InWait t' e' := by
    intro t' e' hin
    unfold InWait at hin
    by_cases hne : t' = t
    · rw [hne, hself] at hin
      rcases hphase with hsame | ⟨hnone, _⟩
      · rw [hsame] at hin
        rw [hne, ← Option.some.inj hin]
        exact ht
      · rw [hnone] at hin
        cases hin
    · rw [hother t' hne] at hin
      exact hin
  have hafter : ∀ t' e' v, (s.entries e').fVariable = some v → s.InWait t' e' →
      (s.setPhase t phase).InWait t' e' := by
    intro t' e' v hv hin
    unfold InWait
    by_cases hne : t' = t
    · rw [hne, hself]
      rw [hne] at hin
      have heq := hin.entry_eq ht
      rcases hphase with hsame | ⟨_, hoff⟩
      · rw [heq]
        exact hsame
      · rw [heq, hoff] at hv
        cases hv
    · rw [hother t' hne]
      exact hin
  constructor
  · exact h.listed
  · exact h.nodup
  · intro e' v hv hnot
    exact h.added e' v hv fun t' ht' => hnot t' (hafter t' e' v hv ht')
  · intro e' v t' hv ht'
    exact h.waiting e' v t' hv (hbefore t' e' ht')
  · intro t' e' ht'
    exact h.thread t' e' (hbefore t' e' ht')
  · intro t' e' ht'
    exact h.woken t' e' (hbefore t' e' ht')
  · intro t' e' error hp
    by_cases hne : t' = t
    · rw [hne, hself] at hp
      rw [hne]
      exact hleaving e' error hp
    · rw [hother t' hne] at hp
      exact h.leaving t' e' error hp

lemma owes_setPhase (ht : s.InWait t e) {phase : Phase E} (hphase : phase.entry = some e)
    (howes : s.Owes e' result) : (s.setPhase t phase).Owes e' result := by
  have hwait : ∀ t' e', (s.setPhase t phase).InWait t' e' ↔ s.InWait t' e' := by
    intro t' e'
    unfold InWait setPhase
    by_cases hne : t' = t
    · rw [hne]
      dsimp only
      rw [update_self, hphase]
      unfold InWait at ht
      rw [ht]
    · dsimp only
      rw [update_of_ne hne]
  exact ⟨howes.off, fun hnot => howes.later fun t' ht' => hnot t' ((hwait t' e').2 ht'),
    fun t' ht' => howes.now t' ((hwait t' e').1 ht')⟩

lemma owes_unblock (h : s.Inv) (t : T) (status : ℤ) (howes : s.Owes e result) :
    (s.unblock t status).Owes e result := by
  constructor
  · rw [entries_unblock]
    exact howes.off
  · unfold InWait
    rw [entries_unblock, phases_unblock]
    exact howes.later
  · unfold InWait
    rw [phases_unblock]
    intro t' ht'
    have hwoken := h.woken t' e ht' howes.off
    rw [unblock_status, if_neg]
    · exact howes.now t' ht'
    · intro hboth
      rw [hboth.1] at hwoken
      exact hwoken hboth.2

end

/-! ## Entries -/

section

variable [DecidableEq E]

lemma Inv.setEntry (h : s.Inv) (hunused : s.Unused e) (hoff : entry.fVariable = none) :
    (s.setEntry e entry).Inv ∧
      ∀ e' owed, e' ≠ e → s.Owes e' owed → (s.setEntry e entry).Owes e' owed := by
  have hself : (s.setEntry e entry).entries e = entry := update_self _ _ _
  have hother : ∀ e', e' ≠ e → (s.setEntry e entry).entries e' = s.entries e' :=
    fun e' hne => update_of_ne hne _ _
  constructor
  · constructor
    · intro e' v'
      by_cases hne : e' = e
      · rw [hne, hself, hoff, ← hunused.1]
        exact h.listed e v'
      · rw [hother e' hne]
        exact h.listed e' v'
    · exact h.nodup
    · intro e' v' hv hnot
      by_cases hne : e' = e
      · rw [hne, hself, hoff] at hv
        cases hv
      · rw [hother e' hne] at hv ⊢
        exact h.added e' v' hv hnot
    · intro e' v' t hv ht
      by_cases hne : e' = e
      · rw [hne, hself, hoff] at hv
        cases hv
      · rw [hother e' hne] at hv ⊢
        exact h.waiting e' v' t hv ht
    · intro t e' ht
      have hne : e' ≠ e := fun heq => hunused.2 t (heq ▸ ht)
      rw [hother e' hne]
      exact h.thread t e' ht
    · intro t e' ht
      have hne : e' ≠ e := fun heq => hunused.2 t (heq ▸ ht)
      rw [hother e' hne]
      exact h.woken t e' ht
    · exact h.leaving
  · intro e' owed hne howes
    have hentry := hother e' hne
    constructor
    · rw [hentry]
      exact howes.off
    · rw [hentry]
      exact howes.later
    · exact howes.now

variable [DecidableEq V]

lemma Inv.addToVariable (h : s.Inv) (hunused : s.Unused e) (t : T) (v : V) :
    (s.addToVariable t e v).Inv ∧
      ∀ e' owed, e' ≠ e → s.Owes e' owed → (s.addToVariable t e v).Owes e' owed := by
  have hself : (s.addToVariable t e v).entries e = ⟨some v, some t, statusAdded⟩ :=
    update_self _ _ _
  have hother : ∀ e', e' ≠ e → (s.addToVariable t e v).entries e' = s.entries e' :=
    fun e' hne => update_of_ne hne _ _
  have hlist : (s.addToVariable t e v).fEntries v = s.fEntries v ++ [e] :=
    update_self _ _ _
  have hlists : ∀ v', v' ≠ v → (s.addToVariable t e v).fEntries v' = s.fEntries v' :=
    fun v' hne => update_of_ne hne _ _
  have hnotin : ∀ v', e ∉ s.fEntries v' := by
    intro v' hin
    have hv := (h.listed e v').1 hin
    rw [hunused.1] at hv
    cases hv
  constructor
  · constructor
    · intro e' v'
      by_cases hne : e' = e
      · rw [hne, hself]
        by_cases hv : v' = v
        · rw [hv, hlist]
          simp
        · rw [hlists v' hv]
          constructor
          · intro hin
            exact absurd hin (hnotin v')
          · intro heq
            exact absurd (Option.some.inj heq).symm hv
      · rw [hother e' hne]
        by_cases hv : v' = v
        · rw [hv, hlist, ← h.listed, List.mem_append, List.mem_singleton]
          simp only [hne, or_false]
        · rw [hlists v' hv]
          exact h.listed e' v'
    · intro v'
      by_cases hv : v' = v
      · rw [hv, hlist, List.nodup_append]
        refine ⟨h.nodup v, List.nodup_singleton e, ?_⟩
        intro a ha b hb heq
        rw [List.mem_singleton.1 hb] at heq
        exact hnotin v (heq ▸ ha)
      · rw [hlists v' hv]
        exact h.nodup v'
    · intro e' v' hvariable hnot
      by_cases hne : e' = e
      · rw [hne, hself]
      · rw [hother e' hne] at hvariable ⊢
        exact h.added e' v' hvariable hnot
    · intro e' v' t' hvariable ht'
      have hne : e' ≠ e := fun heq => hunused.2 t' (heq ▸ ht')
      rw [hother e' hne] at hvariable ⊢
      exact h.waiting e' v' t' hvariable ht'
    · intro t' e' ht'
      have hne : e' ≠ e := fun heq => hunused.2 t' (heq ▸ ht')
      rw [hother e' hne]
      exact h.thread t' e' ht'
    · intro t' e' ht'
      have hne : e' ≠ e := fun heq => hunused.2 t' (heq ▸ ht')
      rw [hother e' hne]
      exact h.woken t' e' ht'
    · exact h.leaving
  · intro e' owed hne howes
    have hentry := hother e' hne
    constructor
    · rw [hentry]
      exact howes.off
    · rw [hentry]
      exact howes.later
    · exact howes.now

/-- The entry that its thread takes off the list -/
def remove (s : State T E V O) (v : V) (e : E) : State T E V O :=
  (s.setList v ((s.fEntries v).erase e)).setEntry e { s.entries e with fVariable := none }

lemma Inv.remove (h : s.Inv) (he : (s.entries e).fVariable = some v)
    (hwoken : ∀ t, s.InWait t e → s.waitStatus t ≠ 1) :
    (s.remove v e).Inv ∧ ∀ e' owed, s.Owes e' owed → (s.remove v e).Owes e' owed := by
  have hself : (s.remove v e).entries e = { s.entries e with fVariable := none } :=
    update_self _ _ _
  have hother : ∀ e', e' ≠ e → (s.remove v e).entries e' = s.entries e' :=
    fun e' hne => update_of_ne hne _ _
  have hlist : (s.remove v e).fEntries v = (s.fEntries v).erase e := update_self _ _ _
  have hlists : ∀ v', v' ≠ v → (s.remove v e).fEntries v' = s.fEntries v' :=
    fun v' hne => update_of_ne hne _ _
  constructor
  · constructor
    · intro e' v'
      by_cases hne : e' = e
      · rw [hne, hself]
        constructor
        · intro hin
          by_cases hv : v' = v
          · rw [hv, hlist, (h.nodup v).mem_erase_iff] at hin
            exact absurd rfl hin.1
          · rw [hlists v' hv, h.listed e v', he] at hin
            exact absurd (Option.some.inj hin).symm hv
        · intro hnone
          cases hnone
      · rw [hother e' hne, ← h.listed]
        by_cases hv : v' = v
        · rw [hv, hlist, List.mem_erase_of_ne hne]
        · rw [hlists v' hv]
    · intro v'
      by_cases hv : v' = v
      · rw [hv, hlist]
        exact (h.nodup v).erase e
      · rw [hlists v' hv]
        exact h.nodup v'
    · intro e' v' hvariable hnot
      by_cases hne : e' = e
      · rw [hne, hself] at hvariable
        cases hvariable
      · rw [hother e' hne] at hvariable ⊢
        exact h.added e' v' hvariable hnot
    · intro e' v' t hvariable hin
      by_cases hne : e' = e
      · rw [hne, hself] at hvariable
        cases hvariable
      · rw [hother e' hne] at hvariable ⊢
        exact h.waiting e' v' t hvariable hin
    · intro t e' hin
      have hthread := h.thread t e' hin
      by_cases hne : e' = e
      · rw [hne] at hthread ⊢
        rw [hself]
        exact hthread
      · rw [hother e' hne]
        exact hthread
    · intro t e' hin hoff
      by_cases hne : e' = e
      · rw [hne] at hin
        exact hwoken t hin
      · rw [hother e' hne] at hoff
        exact h.woken t e' hin hoff
    · exact h.leaving
  · intro e' owed howes
    have hne : e' ≠ e := by
      intro heq
      have hoff := howes.off
      rw [heq, he] at hoff
      cases hoff
    have hentry := hother e' hne
    constructor
    · rw [hentry]
      exact howes.off
    · rw [hentry]
      exact howes.later
    · exact howes.now

end

end State

end Haiku.ConditionVariable
