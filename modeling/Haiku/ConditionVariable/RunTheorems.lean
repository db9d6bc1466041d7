import Haiku.Lib.Run
import Haiku.ConditionVariable.NotifyTheorems
import Haiku.ConditionVariable.WaitTheorems

/-!
# Runs

A notification of one reaches a waiter unless the thread of the first entry has already been woken by
a timeout or an interruption, and is on its way to leave the variable.
-/

namespace Haiku.ConditionVariable

open Lib

variable {T E V O : Type}

/-- The variable of a `NotifyOne()` -/
def Action.notifiedOne : Action T E V O → Option V
  | .notify v false _ => some v
  | _ => none

namespace State

/-! ## What is claimed -/

/-- An entry is on exactly the list of its variable, or on no list. -/
def Listed (s : State T E V O) : Prop :=
  (∀ e v, e ∈ s.fEntries v ↔ (s.entries e).fVariable = some v) ∧ ∀ v, (s.fEntries v).Nodup

/-- All entries of the variable are off its list, and their threads are not blocked any more. -/
def Clears (s s' : State T E V O) (v : V) : Prop :=
  ∀ e ∈ s.fEntries v, (s'.entries e).fVariable = none ∧
    ∀ t, s'.InWait t e → s'.waitStatus t ≠ 1

section

variable [DecidableEq T] [DecidableEq E] [DecidableEq V] [DecidableEq O] [Fintype T]

/-- What is owed is paid or still owed after the step, unless the step adds the entry again. -/
def Pays (s : State T E V O) (a : Action T E V O) : Prop :=
  ∀ returned s', s.perform a = some (returned, s') → ∀ e result, s.Owes e result →
    s'.Settles returned e result ∨ (∃ t object, a = .add t e object) ∨ ∃ t v, a = .addToVariable t e v

/-- `NotifyAll()` and `Unpublish()` take off everyone. -/
def NotifiesAll (s : State T E V O) (a : Action T E V O) : Prop :=
  ∀ s', s.step a = some s' →
    (∀ v result, a = .notify v true result → s.Clears s' v) ∧
      ∀ v, a = .unpublish v → s.Clears s' v

/-- `NotifyOne()` makes the `Wait()` of exactly one live entry return its result, if there is one. -/
def NotifiesOne (s : State T E V O) (a : Action T E V O) : Prop :=
  ∀ v result s', a = .notify v false result → s.step a = some s' → (∃ e, s.Live v e) →
    ∃ e, s.Live v e ∧ s'.Owes e (validResult result) ∧ ∀ e', e' ≠ e → s.Live v e' → s'.Live v e'

/-- If a `NotifyOne()` comes while there is a live entry, then the first entry is live. -/
def PicksLive (s : State T E V O) (a : Action T E V O) : Prop :=
  ∀ v ∈ a.notifiedOne, (∃ e, s.Live v e) → ∃ e, (s.fEntries v).head? = some e ∧ s.Live v e

/-- In a run, the lists are exact in every state, nobody stays blocked when all are notified, and what
a notification of one gives away is returned to a waiter. -/
def LosesNone (h : History (State T E V O) (Action T E V O)) (s : State T E V O) : Prop :=
  s.Listed ∧ ∀ x ∈ h, x.1.Listed ∧ x.1.NotifiesAll x.2 ∧ x.1.NotifiesOne x.2 ∧ x.1.Pays x.2

end

/-! ## Steps -/

variable {s s' : State T E V O} {t : T} {e : E} {v : V} {a : Action T E V O}
  {returned : Option (E × ℤ)}

lemma Inv.clears (hinv : s'.Inv)
    (hoff : ∀ e ∈ s.fEntries v, (s'.entries e).fVariable = none) : s.Clears s' v := by
  intro e he
  refine ⟨hoff e he, ?_⟩
  intro t ht
  exact hinv.woken t e ht (hoff e he)

lemma Inv.isListed (h : s.Inv) : s.Listed := ⟨h.listed, h.nodup⟩

section

variable [DecidableEq V] [DecidableEq O]

lemma Inv.publish (h : s.Inv) (hempty : s.fEntries v = []) (object : O) :
    (s.publish v object).Inv ∧ ∀ e owed, s.Owes e owed → (s.publish v object).Owes e owed := by
  have hlists : (s.publish v object).fEntries = s.fEntries := by
    show Function.update s.fEntries v [] = s.fEntries
    rw [← hempty, Function.update_eq_self]
  exact h.of_same rfl hlists rfl rfl

variable [DecidableEq T] [DecidableEq E]

lemma Inv.unpublish (h : s.Inv) (v : V) (object : O) :
    (s.unpublish v object).Inv ∧ (∀ e owed, s.Owes e owed → (s.unpublish v object).Owes e owed) ∧
      ∀ e ∈ s.fEntries v, ((s.unpublish v object).entries e).fVariable = none := by
  obtain ⟨hinv, hkeeps⟩ := @Inv.of_same _ _ _ _ s { s with
    fObject := Function.update s.fObject v none
    hash    := Function.update s.hash object none } h rfl rfl rfl rfl
  unfold State.unpublish
  dsimp only
  split
  · next hempty =>
    refine ⟨hinv, hkeeps, ?_⟩
    intro e he
    rw [List.isEmpty_iff.1 hempty] at he
    cases he
  · have hresult : bEntryNotFound ≠ 1 := by decide
    obtain ⟨hinv', hkeeps'⟩ := hinv.notifyLocked (v := v) rfl true hresult
    refine ⟨hinv', fun e owed howes => hkeeps' e owed (hkeeps e owed howes), ?_⟩
    intro e he
    exact hinv.notifyLocked_off rfl hresult e (Or.inl he)

end

variable [DecidableEq T] [DecidableEq E] [DecidableEq V] [DecidableEq O] [Fintype T]

lemma Inv.perform (h : s.Inv) (hperform : s.perform a = some (returned, s')) :
    s'.Inv ∧ ∀ e owed, s.Owes e owed →
      s'.Settles returned e owed ∨ (∃ t object, a = .add t e object) ∨
        ∃ t v, a = .addToVariable t e v := by
  -- a step that does not end a call of `Wait()`
  have hkept : ∀ s₁ : State T E V O,
      (s₁.Inv ∧ ∀ e owed, s.Owes e owed → s₁.Owes e owed) → some (none, s₁) = some (returned, s') →
      s'.Inv ∧ ∀ e owed, s.Owes e owed →
        s'.Settles returned e owed ∨ (∃ t object, a = .add t e object) ∨
          ∃ t v, a = .addToVariable t e v := by
    rintro s₁ ⟨hinv, hkeeps⟩ heq
    cases heq
    exact ⟨hinv, fun e owed howes => Or.inl (Or.inr ⟨(fun hsome => by cases hsome),
      hkeeps e owed howes⟩)⟩
  unfold State.perform at hperform
  cases a with
  | publish v object =>
    dsimp only at hperform
    split_ifs at hperform with hok
    exact hkept _ (h.publish hok.2.2 object) hperform
  | unpublish v =>
    obtain ⟨object, _, heq⟩ := Option.map_eq_some_iff.1 hperform
    obtain ⟨hinv, hkeeps, _⟩ := h.unpublish v object
    exact hkept _ ⟨hinv, hkeeps⟩ (congrArg some heq)
  | add t e object =>
    dsimp only at hperform
    split_ifs at hperform with hok
    cases hperform
    have hadd : (s.add t e object).Inv ∧
        ∀ e' owed, e' ≠ e → s.Owes e' owed → (s.add t e object).Owes e' owed := by
      unfold State.add
      split
      · exact h.setEntry hok.2 rfl
      · exact h.addToVariable hok.2 t _
    refine ⟨hadd.1, ?_⟩
    intro e' owed howes
    by_cases hne : e' = e
    · rw [hne]
      exact Or.inr (Or.inl ⟨t, object, rfl⟩)
    · exact Or.inl (Or.inr ⟨(fun hsome => by cases hsome), hadd.2 e' owed hne howes⟩)
  | addToVariable t e v =>
    dsimp only at hperform
    split_ifs at hperform with hok
    cases hperform
    have hadd := h.addToVariable hok.2 t v
    refine ⟨hadd.1, ?_⟩
    intro e' owed howes
    by_cases hne : e' = e
    · rw [hne]
      exact Or.inr (Or.inr ⟨t, v, rfl⟩)
    · exact Or.inl (Or.inr ⟨(fun hsome => by cases hsome), hadd.2 e' owed hne howes⟩)
  | wait t e =>
    dsimp only at hperform
    split_ifs at hperform with hok
    have hwait := h.wait hok.1 hok.2
    rw [Option.some.inj hperform] at hwait
    exact ⟨hwait.1, fun e' owed howes => Or.inl (hwait.2 e' owed howes)⟩
  | block t interrupted =>
    dsimp only at hperform
    split at hperform
    · next e hphase => exact hkept _ (h.block hphase interrupted) hperform
    · cases hperform
  | resume t =>
    dsimp only at hperform
    split at hperform
    · next e hphase =>
      split_ifs at hperform with hwoken
      exact hkept _ (h.resume hphase hwoken) hperform
    · cases hperform
  | leave t =>
    dsimp only at hperform
    split at hperform
    · next e error hphase =>
      cases hperform
      have hleave := h.leave hphase
      exact ⟨hleave.1, fun e' owed howes => Or.inl (hleave.2 e' owed howes)⟩
    · cases hperform
  | unblock t status =>
    dsimp only at hperform
    split_ifs at hperform
    exact hkept _ ⟨h.unblock t status, fun e owed howes => owes_unblock h t status howes⟩ hperform
  | notify v all result =>
    exact hkept _ (h.notify v all result) hperform

lemma perform_of_step (hstep : s.step a = some s') :
    ∃ returned, s.perform a = some (returned, s') := by
  obtain ⟨⟨returned, s₁⟩, hperform, heq⟩ := Option.map_eq_some_iff.1 hstep
  exact ⟨returned, by rw [hperform, ← heq]⟩

lemma Inv.step (h : s.Inv) (hstep : s.step a = some s') : s'.Inv := by
  obtain ⟨returned, hperform⟩ := perform_of_step hstep
  exact (h.perform hperform).1

lemma Inv.pays (h : s.Inv) (a : Action T E V O) : s.Pays a :=
  fun _ _ hperform => (h.perform hperform).2

lemma Inv.notifiesAll (h : s.Inv) (a : Action T E V O) : s.NotifiesAll a := by
  intro s' hstep
  have hinv := h.step hstep
  constructor
  · intro v result ha
    apply hinv.clears
    rw [ha] at hstep
    rw [← Option.some.inj hstep]
    show ∀ e ∈ s.fEntries v, ((s.notify v true result).entries e).fVariable = none
    unfold State.notify
    split
    · next hempty =>
      intro e he
      rw [List.isEmpty_iff.1 hempty] at he
      cases he
    · intro e he
      exact h.notifyLocked_off rfl (validResult_ne result) e (Or.inl he)
  · intro v ha
    apply hinv.clears
    rw [ha] at hstep
    obtain ⟨returned, hperform⟩ := perform_of_step hstep
    obtain ⟨object, _, heq⟩ := Option.map_eq_some_iff.1 hperform
    have hs : s.unpublish v object = s' := congrArg Prod.snd heq
    rw [← hs]
    exact (h.unpublish v object).2.2
lemma Inv.notifiesOne_iff (h : s.Inv) (a : Action T E V O) :
    s.NotifiesOne a ↔ s.PicksLive a := by
  constructor
  · intro hone v hv hlive
    have ⟨result, ha⟩ : ∃ result, a = .notify v false result := by
      unfold Action.notifiedOne at hv
      split at hv
      · exact ⟨_, by rw [Option.some.inj hv]⟩
      · cases hv
    have hstep : s.step a = some (s.notify v false result) := by
      rw [ha]
      rfl
    obtain ⟨e, he, howes, _⟩ := hone v result _ ha hstep hlive
    cases hl : s.fEntries v with
    | nil =>
      have hin := he.1
      rw [hl] at hin
      cases hin
    | cons head l =>
      -- any other entry is still attached afterwards
      have hhead : (s.entries head).fVariable = some v :=
        (h.listed head v).1 (by rw [hl]; exact List.mem_cons_self)
      have heq : e = head := by
        by_contra hne
        have hoff := howes.off
        rw [h.notify_one hl, h.pop_entry hhead, Function.update_of_ne hne,
          (h.listed e v).1 he.1] at hoff
        cases hoff
      rw [heq] at he
      exact ⟨head, rfl, he⟩
  · intro hpicks v result s' ha hstep hlive
    obtain ⟨e, hhead, he⟩ := hpicks v (by rw [ha]; rfl) hlive
    have ⟨l, hl⟩ : ∃ l, s.fEntries v = e :: l := by
      cases hl : s.fEntries v with
      | nil =>
        rw [hl] at hhead
        cases hhead
      | cons head l =>
        rw [hl] at hhead
        rw [Option.some.inj hhead]
        exact ⟨l, rfl⟩
    have hs' : s' = s.pop v e l (validResult result) := by
      rw [ha] at hstep
      rw [← h.notify_one hl]
      exact (Option.some.inj hstep).symm
    rw [hs']
    exact ⟨e, he, h.pop_live he l _, fun e' hne hlive' => h.pop_other hl hne hlive' _⟩

end State

/-! ## Runs -/

section

variable [DecidableEq T] [DecidableEq E] [DecidableEq V] [DecidableEq O] [Fintype T]

/-- No notification is lost just when every `NotifyOne()` finds a live entry first, if there is one. -/
theorem losesNone_iff {h : History (State T E V O) (Action T E V O)} {s : State T E V O}
    (hr : Run State.step (fun _ _ => True) .init h s) :
    State.LosesNone h s ↔ ∀ x ∈ h, x.1.PicksLive x.2 := by
  have hinv : s.Inv ∧ ∀ x ∈ h, x.1.Inv := by
    apply hr.history (P := fun h s => s.Inv ∧ ∀ x ∈ h, x.1.Inv)
    · exact ⟨State.inv_init, by simp⟩
    · rintro h s a s' _ ⟨hinv, hall⟩ _ hstep
      exact ⟨hinv.step hstep, List.forall_mem_cons.2 ⟨hinv, hall⟩⟩
  constructor
  · intro hloses x hx
    exact ((hinv.2 x hx).notifiesOne_iff x.2).1 (hloses.2 x hx).2.2.1
  · intro hpicks
    refine ⟨hinv.1.isListed, ?_⟩
    intro x hx
    have hx' := hinv.2 x hx
    exact ⟨hx'.isListed, hx'.notifiesAll x.2, (hx'.notifiesOne_iff x.2).2 (hpicks x hx), hx'.pays x.2⟩

end

/-- Two threads wait for one variable, each with its own entry. -/
def bothWait : List (Action Bool Bool Unit Unit) :=
  [.addToVariable true true (), .addToVariable false false (), .wait true true, .wait false false,
    .block true false, .block false false]

instance (s : State Bool Bool Unit Unit) (v : Unit) (e : Bool) : Decidable (s.Live v e) :=
  inferInstanceAs (Decidable (_ ∧ ∀ t, s.InWait t e → s.waitStatus t = 1))

instance (s : State Bool Bool Unit Unit) (a : Action Bool Bool Unit Unit) :
    Decidable (s.PicksLive a) :=
  inferInstanceAs (Decidable (∀ v ∈ a.notifiedOne, (∃ e, s.Live v e) → ∃ e, _ ∧ s.Live v e))

/-- The first one is notified and returns, then the second one. -/
def notifyInTurn : List (Action Bool Bool Unit Unit) :=
  bothWait ++ [.notify () false 0, .resume true, .leave true, .notify () false 0]

theorem losesNone_iff_notifyInTurn :
    ∃ h, State.LosesNone h (outcome State.step .init notifyInTurn) ∧ h.length = 10 := by
  obtain ⟨h, hr, hcheck⟩ := @run_outcome _ _ (fun _ _ => True) State.step (fun _ _ => true)
    (fun _ _ _ => trivial) .init notifyInTurn
    (fun h => decide (h.length = 10 ∧ ∀ x ∈ h, x.1.PicksLive x.2)) (by decide)
  obtain ⟨hlength, hpicks⟩ := of_decide_eq_true hcheck
  exact ⟨h, (losesNone_iff hr).2 hpicks, hlength⟩

/-- The first thread times out, and is notified before it leaves: the second one sleeps on. -/
theorem not_losesNone : ¬ ∀ (T E V O : Type) [DecidableEq T] [DecidableEq E] [DecidableEq V]
    [DecidableEq O] [Fintype T] (h : History (State T E V O) (Action T E V O)) (s : State T E V O),
    Run State.step (fun _ _ => True) .init h s → State.LosesNone h s := by
  intro hloses
  obtain ⟨h, hr, _⟩ := @run_outcome _ _ (fun _ _ => True) State.step (fun _ _ => true)
    (fun _ _ _ => trivial) .init (bothWait ++ [.unblock true bTimedOut]) (fun _ => true)
    (by decide)
  have hstep := @step_outcome _ _ State.step (outcome State.step .init
    (bothWait ++ [.unblock true bTimedOut])) (.notify () false 0) (by decide)
  have hall := (hloses _ _ _ _ _ _ (hr.snoc trivial hstep)).2 _ List.mem_cons_self
  have hlive : ∃ e, (outcome State.step .init (bothWait ++ [.unblock true bTimedOut])).Live () e :=
    ⟨false, by decide⟩
  obtain ⟨e, he, howes, _⟩ := hall.2.2.1 () 0 _ rfl hstep hlive
  cases e with
  | false =>
    have hoff := howes.off
    revert hoff
    decide
  | true =>
    revert he
    decide

end Haiku.ConditionVariable
