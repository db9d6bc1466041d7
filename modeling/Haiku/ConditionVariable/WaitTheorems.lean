import Haiku.ConditionVariable.Invariant

/-!
# Waiting

A call of `Wait()` announces that its thread waits, blocks, and removes the entry in the end, if no
notification did before. It returns what a notification owes it.
-/

namespace Haiku.ConditionVariable

open Function

variable {T E V O : Type}

namespace State

variable {s : State T E V O} {t : T} {e : E}

section

variable [DecidableEq T]

lemma Inv.block (h : s.Inv) (hphase : s.phases t = .announced e) (interrupted : Bool) :
    (s.block t e interrupted).Inv ∧
      ∀ e' owed, s.Owes e' owed → (s.block t e interrupted).Owes e' owed := by
  have hin : s.InWait t e := by
    unfold InWait
    rw [hphase]
    rfl
  unfold State.block
  by_cases hone : s.waitStatus t = 1
  · rw [if_pos hone]
    cases interrupted with
    | false =>
      refine ⟨h.setPhase hin (Or.inl rfl) ?_, fun e' owed howes => owes_setPhase hin rfl howes⟩
      intro e' error hleaving
      cases hleaving
    | true =>
      have hset : s.setStatus t bInterrupted = s.unblock t bInterrupted := by
        unfold State.unblock
        rw [if_pos hone]
      have hin' : (s.unblock t bInterrupted).InWait t e := by
        unfold InWait
        rw [phases_unblock]
        exact hin
      rw [if_pos rfl, hset]
      refine ⟨(h.unblock t bInterrupted).setPhase hin' (Or.inl rfl) ?_, ?_⟩
      · intro e' error hleaving
        cases hleaving
        rw [unblock_status, if_pos ⟨rfl, hone⟩]
        exact ⟨rfl, by decide⟩
      · intro e' owed howes
        exact owes_setPhase hin' rfl (owes_unblock h t bInterrupted howes)
  · rw [if_neg hone]
    refine ⟨h.setPhase hin (Or.inl rfl) ?_, fun e' owed howes => owes_setPhase hin rfl howes⟩
    intro e' error hleaving
    cases hleaving
    exact ⟨rfl, hone⟩

lemma Inv.resume (h : s.Inv) (hphase : s.phases t = .blocked e) (hwoken : s.waitStatus t ≠ 1) :
    (s.setPhase t (.leaving e (s.waitStatus t))).Inv ∧ ∀ e' owed, s.Owes e' owed →
      (s.setPhase t (.leaving e (s.waitStatus t))).Owes e' owed := by
  have hin : s.InWait t e := by
    unfold InWait
    rw [hphase]
    rfl
  refine ⟨h.setPhase hin (Or.inl rfl) ?_, fun e' owed howes => owes_setPhase hin rfl howes⟩
  intro e' error hleaving
  cases hleaving
  exact ⟨rfl, hwoken⟩

lemma owes_outside (ht : s.InWait t e) (hne : e' ≠ e) (howes : s.Owes e' result) :
    (s.setPhase t .outside).Owes e' result := by
  have hwait : ∀ t', (s.setPhase t .outside).InWait t' e' ↔ s.InWait t' e' := by
    intro t'
    show (update s.phases t .outside t').entry = some e' ↔ (s.phases t').entry = some e'
    by_cases heq : t' = t
    · rw [heq, update_self]
      constructor
      · intro hin
        cases hin
      · intro hin
        exact absurd (InWait.entry_eq hin ht) hne
    · rw [update_of_ne heq]
  exact ⟨howes.off, fun hnot => howes.later fun t' ht' => hnot t' ((hwait t').2 ht'),
    fun t' ht' => howes.now t' ((hwait t').1 ht')⟩

end

section

variable [DecidableEq T] [DecidableEq E]

/-- The state in which a thread has announced that it waits -/
def announce (s : State T E V O) (t : T) (e : E) : State T E V O :=
  ((s.setStatus t 1).setEntry e { s.entries e with fWaitStatus := statusWaiting }).setPhase t
    (.announced e)

lemma entries_announce (s : State T E V O) (t : T) (e : E) :
    (s.announce t e).entries e = { s.entries e with fWaitStatus := statusWaiting } :=
  update_self _ _ _

lemma entries_announce_of_ne (s : State T E V O) (t : T) (e e' : E) (hne : e' ≠ e) :
    (s.announce t e).entries e' = s.entries e' :=
  update_of_ne hne _ _

lemma status_announce (s : State T E V O) (t : T) (e : E) (t' : T) :
    (s.announce t e).waitStatus t' = if t' = t then 1 else s.waitStatus t' :=
  update_apply _ _ _ _

lemma inWait_announce (s : State T E V O) (t : T) (e : E) (t' : T) (e' : E) :
    (s.announce t e).InWait t' e' ↔ if t' = t then e' = e else s.InWait t' e' := by
  show (update s.phases t (.announced e) t').entry = some e' ↔ _
  rw [update_apply]
  split_ifs
  · show some e = some e' ↔ _
    rw [Option.some.injEq]
    exact eq_comm
  · exact Iff.rfl

lemma Inv.wait (h : s.Inv) (houtside : (s.phases t).entry = none)
    (hthread : (s.entries e).fThread = some t) :
    (s.wait t e).2.Inv ∧
      ∀ e' owed, s.Owes e' owed → (s.wait t e).2.Settles (s.wait t e).1 e' owed := by
  have hnotin : ∀ e', ¬ s.InWait t e' := by
    intro e' hin
    unfold InWait at hin
    rw [houtside] at hin
    cases hin
  -- only the thread that added the entry could wait with it
  have hfree : ∀ t', ¬ s.InWait t' e := by
    intro t' hin
    have hsame := h.thread t' e hin
    rw [hthread] at hsame
    rw [← Option.some.inj hsame] at hin
    exact hnotin e hin
  unfold State.wait
  split
  · next hoff =>
    refine ⟨h, ?_⟩
    intro e' owed howes
    by_cases heq : e' = e
    · left
      rw [heq] at howes ⊢
      rw [howes.later hfree]
    · right
      exact ⟨fun hsome => heq (Option.some.inj hsome).symm, howes⟩
  · next v hon =>
    have hself := s.entries_announce t e
    have hother := s.entries_announce_of_ne t e
    have hwait := s.inWait_announce t e
    have hstatus := s.status_announce t e
    change (s.announce t e).Inv ∧ _
    constructor
    · constructor
      · intro e' v'
        by_cases hne : e' = e
        · rw [hne, hself]
          exact h.listed e v'
        · rw [hother e' hne]
          exact h.listed e' v'
      · exact h.nodup
      · intro e' v' hv hnot
        have hne : e' ≠ e := fun heq => hnot t ((hwait t e').2 (by rw [if_pos rfl, heq]))
        rw [hother e' hne] at hv ⊢
        apply h.added e' v' hv
        intro t' hin
        have ht : t' ≠ t := fun heq => hnotin e' (heq ▸ hin)
        exact hnot t' ((hwait t' e').2 (by rw [if_neg ht]; exact hin))
      · intro e' v' t' hv hin
        rw [hwait] at hin
        by_cases ht : t' = t
        · rw [if_pos ht] at hin
          rw [hin, hself]
        · rw [if_neg ht] at hin
          have hne : e' ≠ e := fun heq => hfree t' (heq ▸ hin)
          rw [hother e' hne] at hv ⊢
          exact h.waiting e' v' t' hv hin
      · intro t' e' hin
        rw [hwait] at hin
        by_cases ht : t' = t
        · rw [if_pos ht] at hin
          rw [hin, hself, ht]
          exact hthread
        · rw [if_neg ht] at hin
          have hne : e' ≠ e := fun heq => hfree t' (heq ▸ hin)
          rw [hother e' hne]
          exact h.thread t' e' hin
      · intro t' e' hin hoff
        rw [hwait] at hin
        by_cases ht : t' = t
        · rw [if_pos ht] at hin
          rw [hin, hself, hon] at hoff
          cases hoff
        · rw [if_neg ht] at hin
          have hne : e' ≠ e := fun heq => hfree t' (heq ▸ hin)
          rw [hother e' hne] at hoff
          rw [hstatus, if_neg ht]
          exact h.woken t' e' hin hoff
      · intro t' e' error hp
        by_cases ht : t' = t
        · have hphase : (s.announce t e).phases t = .announced e := update_self _ _ _
          rw [ht, hphase] at hp
          cases hp
        · have hphase : (s.announce t e).phases t' = s.phases t' :=
            update_of_ne ht _ _
          rw [hphase] at hp
          rw [hstatus, if_neg ht]
          exact h.leaving t' e' error hp
    · intro e' owed howes
      right
      refine ⟨(fun hsome => by cases hsome), ?_⟩
      have hne : e' ≠ e := by
        intro heq
        have hoff := howes.off
        rw [heq, hon] at hoff
        cases hoff
      have hsame : ∀ t', (s.announce t e).InWait t' e' ↔ s.InWait t' e' := by
        intro t'
        rw [hwait]
        by_cases ht : t' = t
        · rw [if_pos ht, ht]
          exact ⟨fun heq => absurd heq hne, fun hin => absurd hin (hnotin e')⟩
        · rw [if_neg ht]
      constructor
      · show ((s.announce t e).entries e').fVariable = none
        rw [hother e' hne]
        exact howes.off
      · intro hnot
        show ((s.announce t e).entries e').fWaitStatus = owed
        rw [hother e' hne]
        exact howes.later fun t' hin => hnot t' ((hsame t').2 hin)
      · intro t' hin
        have hin' := (hsame t').1 hin
        have ht : t' ≠ t := fun heq => hnotin e' (heq ▸ hin')
        show (s.announce t e).waitStatus t' = owed
        rw [hstatus, if_neg ht]
        exact howes.now t' hin'

end

variable [DecidableEq T] [DecidableEq E] [DecidableEq V]

lemma Inv.leave (h : s.Inv) {error : ℤ} (hphase : s.phases t = .leaving e error) :
    (s.leave t e).Inv ∧
      ∀ e' owed, s.Owes e' owed → (s.leave t e).Settles (some (e, error)) e' owed := by
  have hin : s.InWait t e := by
    unfold InWait
    rw [hphase]
    rfl
  obtain ⟨herror, hwoken⟩ := h.leaving t e error hphase
  -- the status that the thread returns is the one that is owed, if one is
  have hpaid : ∀ owed, s.Owes e owed → error = owed := by
    intro owed howes
    rw [← herror]
    exact howes.now t hin
  have hnone : ∀ (e' : E), e' ≠ e → (some (e, error)).map Prod.fst ≠ some e' :=
    fun e' hne hsome => hne (Option.some.inj hsome).symm
  unfold State.leave
  split
  · next hoff =>
    constructor
    · apply h.setPhase hin (Or.inr ⟨rfl, hoff⟩)
      intro e' error' hleaving
      cases hleaving
    · intro e' owed howes
      by_cases hne : e' = e
      · rw [hne] at howes ⊢
        rw [hpaid owed howes]
        exact Or.inl rfl
      · exact Or.inr ⟨hnone e' hne, owes_outside hin hne howes⟩
  · next v hon =>
    have hstatus : ∀ t', s.InWait t' e → s.waitStatus t' ≠ 1 := by
      intro t' hin'
      rw [h.thread_eq hin' hin, herror]
      exact hwoken
    obtain ⟨hremove, hkeeps⟩ := h.remove hon hstatus
    have hoff : ((s.remove v e).entries e).fVariable = none := by
      unfold State.remove State.setEntry
      dsimp only
      rw [update_self]
    have hin' : (s.remove v e).InWait t e := hin
    constructor
    · apply hremove.setPhase hin' (Or.inr ⟨rfl, hoff⟩)
      intro e' error' hleaving
      cases hleaving
    · intro e' owed howes
      by_cases hne : e' = e
      · rw [hne] at howes ⊢
        rw [hpaid owed howes]
        exact Or.inl rfl
      · exact Or.inr ⟨hnone e' hne, owes_outside hin' hne (hkeeps e' owed howes)⟩

end State

end Haiku.ConditionVariable
