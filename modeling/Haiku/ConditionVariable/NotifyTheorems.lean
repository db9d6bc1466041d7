import Haiku.ConditionVariable.Invariant

/-!
# Notifications

A notification of all takes every entry off the list and lets its thread go on. A notification of
one takes off the first entry of the list.
-/

namespace Haiku.ConditionVariable

open Function

variable {T E V O : Type}

namespace State

/-- An entry that was added, and has not timed out, been interrupted or been notified -/
def Live (s : State T E V O) (v : V) (e : E) : Prop :=
  e ∈ s.fEntries v ∧ ∀ t, s.InWait t e → s.waitStatus t = 1

variable {s : State T E V O} {t : T} {e e' : E} {v : V} {l : List E} {result : ℤ}

/-! ## Taking an entry off -/

variable [DecidableEq T] [DecidableEq E] [DecidableEq V]

/-- `_NotifyLocked()` takes the first entry off the list. -/
def pop (s : State T E V O) (v : V) (e : E) (l : List E) (result : ℤ) : State T E V O :=
  (s.notifyEntry e result).setList v l

lemma Inv.pop_entry (h : s.Inv) (he : (s.entries e).fVariable = some v) (l : List E)
    (result : ℤ) : (s.pop v e l result).entries =
      update s.entries e ⟨none, (s.entries e).fThread, result⟩ := by
  unfold pop notifyEntry
  rw [if_neg (h.status_pos he)]
  dsimp only
  split_ifs
  · split
    · rfl
    · show update (s.unblock _ result).entries e _ = _
      rw [entries_unblock]
  · rfl

lemma pop_phases (s : State T E V O) (v : V) (e : E) (l : List E) (result : ℤ) :
    (s.pop v e l result).phases = s.phases := by
  unfold pop notifyEntry
  dsimp only
  split_ifs
  · rfl
  · split
    · rfl
    · exact phases_unblock _ _ _
  · rfl

lemma pop_fEntries (s : State T E V O) (v : V) (e : E) (l : List E) (result : ℤ) :
    (s.pop v e l result).fEntries = update s.fEntries v l := by
  unfold pop notifyEntry
  dsimp only
  split_ifs
  · rfl
  · split
    · rfl
    · show update (s.unblock _ result).fEntries v l = _
      rw [fEntries_unblock]
  · rfl

lemma Inv.pop_status (h : s.Inv) (he : (s.entries e).fVariable = some v) (l : List E)
    (result : ℤ) (t : T) : (s.pop v e l result).waitStatus t =
      if s.InWait t e ∧ s.waitStatus t = 1 then result else s.waitStatus t := by
  unfold pop notifyEntry
  rw [if_neg (h.status_pos he)]
  dsimp only
  by_cases hwait : ∃ t', s.InWait t' e
  · obtain ⟨t', ht'⟩ := hwait
    rw [if_pos (h.waiting e v t' he ht'), h.thread t' e ht']
    show (s.unblock t' result).waitStatus t = _
    rw [unblock_status]
    by_cases ht : t = t'
    · rw [ht]
      simp only [ht', true_and]
    · have hnot : ¬ s.InWait t e := fun hin => ht (h.thread_eq hin ht')
      rw [if_neg fun hin => ht hin.1, if_neg fun hin => hnot hin.1]
  · have hadded := h.added e v he fun t' ht' => hwait ⟨t', ht'⟩
    rw [if_neg (by rw [hadded]; decide), if_neg fun hin => hwait ⟨t, hin.1⟩]
    rfl

lemma Inv.pop (h : s.Inv) (hl : s.fEntries v = e :: l) (hresult : result ≠ 1) :
    (s.pop v e l result).Inv := by
  have he :
    (s.entries e).fVariable = some v := (h.listed e v).1 (by rw [hl]; exact List.mem_cons_self)
  have hentries := h.pop_entry he l result
  have hphases := s.pop_phases v e l result
  have hlists := s.pop_fEntries v e l result
  have hstatus := h.pop_status he l result
  have hnodup := h.nodup v
  rw [hl, List.nodup_cons] at hnodup
  have hself : (s.pop v e l result).entries e = ⟨none, (s.entries e).fThread, result⟩ := by
    rw [hentries, update_self]
  have hother : ∀ e', e' ≠ e → (s.pop v e l result).entries e' = s.entries e' := by
    intro e' hne
    rw [hentries, update_of_ne hne]
  have hwait : ∀ t e', (s.pop v e l result).InWait t e' ↔ s.InWait t e' := by
    intro t e'
    unfold InWait
    rw [hphases]
  constructor
  · intro e' v'
    rw [hlists]
    by_cases hv : v' = v
    · rw [hv, update_self]
      by_cases hne : e' = e
      · rw [hne, hself]
        constructor
        · intro hin
          exact absurd hin hnodup.1
        · intro hnone
          cases hnone
      · rw [hother e' hne, ← h.listed e' v, hl, List.mem_cons]
        simp only [hne, false_or]
    · rw [update_of_ne hv, h.listed]
      by_cases hne : e' = e
      · rw [hne, hself, he]
        simp only [Option.some.injEq, reduceCtorEq, iff_false]
        exact fun heq => hv heq.symm
      · rw [hother e' hne]
  · intro v'
    rw [hlists]
    by_cases hv : v' = v
    · rw [hv, update_self]
      exact hnodup.2
    · rw [update_of_ne hv]
      exact h.nodup v'
  · intro e' v' hvariable hnot
    by_cases hne : e' = e
    · rw [hne, hself] at hvariable
      cases hvariable
    · rw [hother e' hne] at hvariable ⊢
      exact h.added e' v' hvariable fun t ht => hnot t ((hwait t e').2 ht)
  · intro e' v' t hvariable hin
    by_cases hne : e' = e
    · rw [hne, hself] at hvariable
      cases hvariable
    · rw [hother e' hne] at hvariable ⊢
      exact h.waiting e' v' t hvariable ((hwait t e').1 hin)
  · intro t e' hin
    have hthread := h.thread t e' ((hwait t e').1 hin)
    by_cases hne : e' = e
    · rw [hne] at hthread ⊢
      rw [hself]
      exact hthread
    · rw [hother e' hne]
      exact hthread
  · intro t e' hin hoff
    rw [hwait] at hin
    rw [hstatus]
    by_cases hne : e' = e
    · rw [hne] at hin
      by_cases hone : s.waitStatus t = 1
      · rw [if_pos ⟨hin, hone⟩]
        exact hresult
      · rw [if_neg fun hboth => hone hboth.2]
        exact hone
    · rw [hother e' hne] at hoff
      rw [if_neg fun hboth => hne (hin.entry_eq hboth.1)]
      exact h.woken t e' hin hoff
  · intro t e' error hphase
    rw [hphases] at hphase
    obtain ⟨herror, hone⟩ := h.leaving t e' error hphase
    rw [hstatus, if_neg fun hboth => hone (herror.symm.trans hboth.2)]
    exact ⟨herror, hone⟩

lemma Inv.pop_owes (h : s.Inv) (hl : s.fEntries v = e :: l) {owed : ℤ}
    (howes : s.Owes e' owed) (result : ℤ) : (s.pop v e l result).Owes e' owed := by
  have he :
    (s.entries e).fVariable = some v := (h.listed e v).1 (by rw [hl]; exact List.mem_cons_self)
  have hne : e' ≠ e := by
    intro heq
    have hoff := howes.off
    rw [heq, he] at hoff
    cases hoff
  have hentry : (s.pop v e l result).entries e' = s.entries e' := by
    rw [h.pop_entry he, update_of_ne hne]
  have hwait : ∀ t, (s.pop v e l result).InWait t e' ↔ s.InWait t e' := by
    intro t
    unfold InWait
    rw [pop_phases]
  constructor
  · rw [hentry]
    exact howes.off
  · intro hnot
    rw [hentry]
    exact howes.later fun t ht => hnot t ((hwait t).2 ht)
  · intro t ht
    have hin := (hwait t).1 ht
    rw [h.pop_status he, if_neg fun hboth => hne (hin.entry_eq hboth.1)]
    exact howes.now t hin

lemma notifyEntry_setList (s : State T E V O) (v : V) (l : List E) (e : E) (result : ℤ) :
    (s.setList v l).notifyEntry e result = (s.notifyEntry e result).setList v l := by
  unfold notifyEntry setList setEntry unblock setStatus
  dsimp only
  split_ifs
  · rfl
  · split
    · rfl
    · split <;> rfl
  · rfl

lemma notifyLocked_setList (v : V) (all : Bool) (result : ℤ) (l x : List E)
    (s : State T E V O) :
    notifyLocked v all result l (s.setList v x) = notifyLocked v all result l s := by
  have htwice :
    ∀ (s : State T E V O) (l : List E), (s.setList v x).setList v l = s.setList v l := by
    intro s l
    unfold setList
    rw [update_idem]
  induction l generalizing s with
  | nil => exact htwice s []
  | cons e l ih =>
    rw [notifyLocked, notifyLocked, notifyEntry_setList, ih, htwice]
    rfl

lemma Inv.notifyLocked_cons (h : s.Inv) (hl : s.fEntries v = e :: l) (all : Bool) (result : ℤ) :
    s.notifyLocked v all result (e :: l) =
      if all then (s.pop v e l result).notifyLocked v all result l else s.pop v e l result := by
  have he : (s.entries e).fVariable = some v :=
    (h.listed e v).1 (by rw [hl]; exact List.mem_cons_self)
  have hpositive := h.status_pos he
  unfold State.pop
  rw [State.notifyLocked, notifyLocked_setList]
  cases all
  · simp [hpositive]
  · simp

lemma Inv.notifyLocked (h : s.Inv) (hl : s.fEntries v = l) (all : Bool) (hresult : result ≠ 1) :
    (s.notifyLocked v all result l).Inv ∧
      ∀ e owed, s.Owes e owed → (s.notifyLocked v all result l).Owes e owed := by
  induction l generalizing s with
  | nil =>
    have hsame : s.notifyLocked v all result [] = s := by
      show s.setList v [] = s
      unfold setList
      rw [← hl, update_eq_self]
    rw [hsame]
    exact ⟨h, fun e owed howes => howes⟩
  | cons e l ih =>
    have hpop := h.pop hl hresult
    rw [h.notifyLocked_cons hl]
    cases all with
    | false => exact ⟨hpop, fun e' owed howes => h.pop_owes hl howes result⟩
    | true =>
      have hlist : (s.pop v e l result).fEntries v = l := by
        rw [pop_fEntries, update_self]
      obtain ⟨hinv, howes'⟩ := ih hpop hlist
      exact ⟨hinv, fun e' owed howes => howes' e' owed (h.pop_owes hl howes result)⟩

lemma Inv.notifyLocked_off (h : s.Inv) (hl : s.fEntries v = l) (hresult : result ≠ 1) :
    ∀ e, (e ∈ l ∨ (s.entries e).fVariable = none) →
      ((s.notifyLocked v true result l).entries e).fVariable = none := by
  induction l generalizing s with
  | nil =>
    intro e he
    rcases he with he | he
    · cases he
    · exact he
  | cons e l ih =>
    have he : (s.entries e).fVariable = some v :=
      (h.listed e v).1 (by rw [hl]; exact List.mem_cons_self)
    have hlist : (s.pop v e l result).fEntries v = l := by
      rw [pop_fEntries, update_self]
    rw [h.notifyLocked_cons hl]
    intro e' he'
    apply ih (h.pop hl hresult) hlist
    rw [h.pop_entry he]
    by_cases hne : e' = e
    · rw [hne, update_self]
      exact Or.inr rfl
    · rw [update_of_ne hne]
      rcases he' with hin | hoff
      · exact Or.inl ((List.mem_cons.1 hin).resolve_left hne)
      · exact Or.inr hoff

lemma validResult_ne (result : ℤ) : validResult result ≠ 1 := by
  unfold validResult bError
  split
  · decide
  · omega

lemma Inv.notify (h : s.Inv) (v : V) (all : Bool) (result : ℤ) :
    (s.notify v all result).Inv ∧ ∀ e owed, s.Owes e owed → (s.notify v all result).Owes e owed := by
  unfold State.notify
  split
  · exact ⟨h, fun e owed howes => howes⟩
  · exact h.notifyLocked rfl all (validResult_ne result)
/-! ## Notifying one -/

lemma Inv.notify_one (h : s.Inv) (hl : s.fEntries v = e :: l) (result : ℤ) :
    s.notify v false result = s.pop v e l (validResult result) := by
  unfold State.notify
  rw [hl, if_neg (by simp), h.notifyLocked_cons hl]
  rfl

lemma Inv.pop_live (h : s.Inv) (hlive : s.Live v e) (l : List E) (result : ℤ) :
    (s.pop v e l result).Owes e result := by
  have he : (s.entries e).fVariable = some v := (h.listed e v).1 hlive.1
  have hself : (s.pop v e l result).entries e = ⟨none, (s.entries e).fThread, result⟩ := by
    rw [h.pop_entry he, update_self]
  constructor
  · rw [hself]
  · intro _
    rw [hself]
  · intro t hin
    unfold InWait at hin
    rw [pop_phases] at hin
    rw [h.pop_status he, if_pos ⟨hin, hlive.2 t hin⟩]

lemma Inv.pop_other (h : s.Inv) (hl : s.fEntries v = e :: l) (hne : e' ≠ e)
    (hlive : s.Live v e') (result : ℤ) : (s.pop v e l result).Live v e' := by
  have he : (s.entries e).fVariable = some v :=
    (h.listed e v).1 (by rw [hl]; exact List.mem_cons_self)
  constructor
  · have hin := hlive.1
    rw [hl] at hin
    rw [pop_fEntries, update_self]
    exact (List.mem_cons.1 hin).resolve_left hne
  · intro t hin
    unfold InWait at hin
    rw [pop_phases] at hin
    rw [h.pop_status he, if_neg fun hboth => hne (InWait.entry_eq hin hboth.1)]
    exact hlive.2 t hin

end State

end Haiku.ConditionVariable
