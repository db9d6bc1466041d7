import Mathlib.Data.Option.Basic

/-!
# What a client is told

A component is given by a function `step : σ → α → Option (ρ × σ)`, which answers a call and has the
new state, with `none` for a call that must not be made. `responses` makes a list of calls. Two
components that answer each call alike in states that belong together give a client the same answers.
-/

namespace Haiku.Lib

variable {σ τ α ρ : Type}

/-- The answers to a list of calls, and the state after the last one -/
def responses (step : σ → α → Option (ρ × σ)) : σ → List α → Option (List ρ × σ)
  | s, [] => some ([], s)
  | s, a :: as => (step s a).bind fun r => (responses step r.2 as).map fun r' => (r.1 :: r'.1, r'.2)

/-- The same answer, and states that belong together -/
def Alike (R : σ → τ → Prop) : Option (ρ × σ) → Option (ρ × τ) → Prop :=
  Option.Rel fun r r' => r.1 = r'.1 ∧ R r.2 r'.2

variable {R : σ → τ → Prop} {step : σ → α → Option (ρ × σ)} {step' : τ → α → Option (ρ × τ)}
  {s : σ} {t : τ}

lemma alike_responses (hstep : ∀ {s t} a, R s t → Alike R (step s a) (step' t a)) (h : R s t)
    (as : List α) : Alike R (responses step s as) (responses step' t as) := by
  induction as generalizing s t with
  | nil => exact .some ⟨rfl, h⟩
  | cons a as ih =>
    have ha := hstep a h
    unfold responses
    generalize step s a = o at ha ⊢
    generalize step' t a = o' at ha ⊢
    cases ha with
    | none => exact .none
    | @some r r' hr =>
      have hrest := ih hr.2
      dsimp only [Option.bind_some]
      generalize responses step r.2 as = q at hrest ⊢
      generalize responses step' r'.2 as = q' at hrest ⊢
      cases hrest with
      | none => exact .none
      | some hq => exact .some ⟨congrArg₂ _ hr.1 hq.1, hq.2⟩

lemma Alike.map_fst {o : Option (ρ × σ)} {o' : Option (ρ × τ)} (h : Alike R o o') :
    o.map Prod.fst = o'.map Prod.fst := by
  cases h with
  | none => rfl
  | some h => exact congrArg some h.1

lemma Alike.of_some {r : ρ × σ} {o' : Option (ρ × τ)} (h : Alike R (some r) o') :
    ∃ r', o' = some r' ∧ R r.2 r'.2 := by
  cases h with
  | some h => exact ⟨_, rfl, h.2⟩

end Haiku.Lib
