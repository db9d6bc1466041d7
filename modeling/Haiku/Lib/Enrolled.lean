import Mathlib.Data.List.Nodup

/-!
# Lists of the members in a certain state

Each member `i` of a system has a local state `f i`. A list is `Enrolled` for a predicate of local
states if it holds, once each, the members whose states satisfy the predicate; the order is that in
which they came. The lemmas say how the list follows the change of one member.
-/

namespace Haiku.Lib

open Function

variable {ι κ : Type}

/-- The list holds exactly the members whose states satisfy `p`. -/
structure Enrolled (l : List ι) (p : κ → Bool) (f : ι → κ) : Prop where
  nodup : l.Nodup
  mem : ∀ i, i ∈ l ↔ p (f i) = true

variable {l : List ι} {p : κ → Bool} {f : ι → κ} {i j : ι} {k : κ}

lemma Enrolled.nil (h : ∀ i, p (f i) = false) : Enrolled [] p f :=
  ⟨List.nodup_nil, fun i => by rw [h i]; exact ⟨nofun, nofun⟩⟩

lemma Enrolled.notMem (h : Enrolled l p f) (hi : p (f i) = false) : i ∉ l := by
  rw [h.mem i, hi]
  exact Bool.false_ne_true

lemma Enrolled.head (h : Enrolled l p f) (hi : l.head? = some i) : p (f i) = true :=
  (h.mem i).1 (List.mem_of_mem_head? hi)

lemma Enrolled.congr {g : ι → κ} (h : Enrolled l p f) (hg : ∀ i, p (g i) = p (f i)) :
    Enrolled l p g :=
  ⟨h.nodup, fun i => by rw [hg i]; exact h.mem i⟩

lemma head_of_append (h : (l ++ [j]).head? = some i) : l.head? = some i ∨ i = j := by
  cases l with
  | nil => exact .inr (Option.some.inj h).symm
  | cons _ _ => exact .inl h

variable [DecidableEq ι]

lemma Enrolled.update (h : Enrolled l p f) (hk : p k = p (f i)) :
    Enrolled l p (update f i k) := by
  apply h.congr
  intro j
  by_cases he : j = i
  · rw [he, update_self, hk]
  · rw [update_of_ne he]

lemma Enrolled.append (h : Enrolled l p f) (hi : p (f i) = false) (hk : p k = true) :
    Enrolled (l ++ [i]) p (Function.update f i k) := by
  refine ⟨?_, fun j => ?_⟩
  · rw [List.nodup_append]
    refine ⟨h.nodup, List.nodup_singleton i, fun a ha b hb he => ?_⟩
    rw [List.mem_singleton.1 hb] at he
    exact h.notMem hi (he ▸ ha)
  · by_cases he : j = i
    · rw [he, Function.update_self, hk]
      simp
    · rw [Function.update_of_ne he, ← h.mem j]
      simp [he]

lemma Enrolled.leave {g : ι → κ} (h : Enrolled l p f) (hi : p (g i) = false)
    (hg : ∀ j ≠ i, p (g j) = p (f j)) : Enrolled (l.erase i) p g := by
  refine ⟨h.nodup.erase i, fun j => ?_⟩
  by_cases he : j = i
  · rw [he, hi]
    simpa using h.nodup.not_mem_erase
  · rw [hg j he, ← h.mem j]
    exact List.mem_erase_of_ne he

lemma Enrolled.erase (h : Enrolled l p f) (hk : p k = false) :
    Enrolled (l.erase i) p (Function.update f i k) :=
  h.leave (by rw [Function.update_self]; exact hk) fun j hj => by rw [Function.update_of_ne hj]

lemma Enrolled.tail (h : Enrolled (i :: l) p f) (hk : p k = false) :
    Enrolled l p (Function.update f i k) := by
  have hrest := h.erase (i := i) hk
  rwa [List.erase_cons_head] at hrest

lemma head_of_erase (hl : l.Nodup) (h : (l.erase i).head? = some j) :
    j ≠ i ∧ j ∈ l ∧ (l.head? = some i ∨ l.head? = some j) := by
  have hmem : j ∈ l.erase i := List.mem_of_mem_head? h
  refine ⟨fun he => ?_, List.mem_of_mem_erase hmem, ?_⟩
  · rw [he] at hmem
    exact hl.not_mem_erase hmem
  · cases l with
    | nil => cases h
    | cons a l =>
      by_cases ha : a = i
      · exact .inl (congrArg some ha)
      · rw [List.erase_cons_tail (by simpa using ha)] at h
        exact .inr h

end Haiku.Lib
