import Mathlib.Logic.Relation

/-!
# Runs of a partial transition function

A system is given by a function `step : σ → α → Option σ`, with `none` for an action that
cannot be taken. A `Run` is a finite sequence of actions, each of which meets a condition
`ok` on the state it is taken in and on the action itself.

* `Run` keeps the whole history (newest entry first), so that a statement may speak about
  what happened earlier in the run;
* `Run.invariant` and `Run.history` are the two induction rules: the first for an
  invariant of the state alone, the second for one that relates the state to the history;
* `Run.append` composes two runs, and `Run.split` takes one apart at an entry of its history;
* `replay` executes a list of actions, and `run_outcome` turns a check of what it does by
  evaluation into a run.
-/

namespace Haiku.Lib

variable {σ α : Type}

/-- A history: the actions taken so far with the states they were taken in, newest first. -/
abbrev History (σ α : Type) := List (σ × α)

/-- The runs of `step` from `s₀` in which every action meets the condition `ok`. -/
inductive Run (step : σ → α → Option σ) (ok : σ → α → Prop) (s₀ : σ) :
    History σ α → σ → Prop
  | nil : Run step ok s₀ [] s₀
  | snoc {h : History σ α} {s s' : σ} {a : α} (run : Run step ok s₀ h s) (meets : ok s a)
      (taken : step s a = some s') : Run step ok s₀ ((s, a) :: h) s'

variable {step : σ → α → Option σ} {ok ok' : σ → α → Prop} {s₀ s s' : σ} {h h' : History σ α}

lemma Run.invariant {I : σ → Prop} (hr : Run step ok s₀ h s) (h₀ : I s₀)
    (hstep : ∀ {s a s'}, I s → ok s a → step s a = some s' → I s') : I s := by
  induction hr with
  | nil => exact h₀
  | snoc _ meets taken ih => exact hstep ih meets taken

lemma Run.history {P : History σ α → σ → Prop} (hr : Run step ok s₀ h s) (h₀ : P [] s₀)
    (hstep : ∀ {h s a s'}, Run step ok s₀ h s → P h s → ok s a → step s a = some s' →
      P ((s, a) :: h) s') : P h s := by
  induction hr with
  | nil => exact h₀
  | snoc run meets taken ih => exact hstep run ih meets taken

lemma Run.mono (hr : Run step ok s₀ h s) (himp : ∀ s a, ok s a → ok' s a) :
    Run step ok' s₀ h s := by
  induction hr with
  | nil => exact .nil
  | snoc _ meets taken ih => exact .snoc ih (himp _ _ meets) taken

lemma Run.append (hr : Run step ok s₀ h s) (hr' : Run step ok s h' s') :
    Run step ok s₀ (h' ++ h) s' := by
  induction hr' with
  | nil => exact hr
  | snoc _ meets taken ih => exact .snoc ih meets taken

lemma Run.split (hr : Run step ok s₀ h s) {e : σ × α} (he : e ∈ h) :
    ∃ h₀ h₁ s₁, h = h₁ ++ e :: h₀ ∧ Run step ok s₀ h₀ e.1 ∧ ok e.1 e.2 ∧
      step e.1 e.2 = some s₁ ∧ Run step ok s₁ h₁ s := by
  induction hr with
  | nil => cases he
  | @snoc h s s' a run meets taken ih =>
    rcases List.mem_cons.1 he with rfl | he
    · exact ⟨h, [], s', rfl, run, meets, taken, .nil⟩
    · obtain ⟨h₀, h₁, s₁, rfl, hr₀, hm, ht, hr₁⟩ := ih he
      exact ⟨h₀, (s, a) :: h₁, s₁, rfl, hr₀, hm, ht, .snoc hr₁ meets taken⟩

/-! ## Executing a list of actions -/

/-- Takes the given actions one after the other. -/
def replay (step : σ → α → Option σ) : σ → List α → Option (History σ α × σ)
  | s, [] => some ([], s)
  | s, a :: as => (step s a).bind fun s' =>
    (replay step s' as).map fun r => (r.1 ++ [(s, a)], r.2)

lemma replay_append {as bs : List α} {s₁ : σ} (h₁ : replay step s as = some (h, s₁))
    (h₂ : replay step s₁ bs = some (h', s')) : replay step s (as ++ bs) = some (h' ++ h, s') := by
  induction as generalizing s h with
  | nil =>
    cases h₁
    rw [List.append_nil]
    exact h₂
  | cons a as ih =>
    obtain ⟨t, ht, hr⟩ := Option.bind_eq_some_iff.1 h₁
    obtain ⟨⟨h₃, s₃⟩, hr₃, he⟩ := Option.map_eq_some_iff.1 hr
    cases he
    show (step s a).bind (fun t => (replay step t (as ++ bs)).map _) = _
    rw [ht, Option.bind_some, ih hr₃]
    simp

lemma Run.of_replay {as : List α} : ∀ {s : σ} {h : History σ α} {s' : σ},
    replay step s as = some (h, s') → (∀ e ∈ h, ok e.1 e.2) → Run step ok s h s' := by
  induction as with
  | nil =>
    intro s h s' hr _
    cases hr
    exact .nil
  | cons a as ih =>
    intro s h s' hr hok
    obtain ⟨s₁, hs₁, hr⟩ := Option.bind_eq_some_iff.1 hr
    obtain ⟨⟨h₁, s₂⟩, hr₁, he⟩ := Option.map_eq_some_iff.1 hr
    cases he
    have hfirst : Run step ok s [(s, a)] s₁ := .snoc .nil (hok (s, a) (by simp)) hs₁
    exact hfirst.append (ih hr₁ fun e he => hok e (List.mem_append_left _ he))

/-- The state after the given actions, if all of them can be taken. -/
def outcome (step : σ → α → Option σ) (s : σ) (as : List α) : σ :=
  ((replay step s as).map Prod.snd).getD s

lemma step_outcome {a : α} (h : (step s a).isSome = true) :
    step s a = some (outcome step s [a]) := by
  cases hs : step s a with
  | none => simp [hs] at h
  | some s' => simp [outcome, replay, hs]

lemma run_outcome (step : σ → α → Option σ) {check : σ → α → Bool}
    (hcheck : ∀ s a, check s a = true → ok s a) (s : σ) (as : List α) (p : History σ α → Bool)
    (hp : ((replay step s as).any fun r => r.1.all (fun e => check e.1 e.2) && p r.1) = true) :
    ∃ h, Run step ok s h (outcome step s as) ∧ p h = true := by
  cases hr : replay step s as with
  | none => simp [hr] at hp
  | some r =>
    rw [hr, Option.any_some, Bool.and_eq_true, List.all_eq_true] at hp
    rw [outcome, hr]
    exact ⟨r.1, .of_replay hr fun e he => hcheck _ _ (hp.1 e he), hp.2⟩

end Haiku.Lib
