import Mathlib.Algebra.BigOperators.Fin
import Mathlib.Algebra.Order.BigOperators.Group.Finset
import Mathlib.Tactic.Ring

/-!
# The simple layouter

`src/kits/interface/layouter/SimpleLayouter.cpp`: a size is handed out to elements with a minimum and a
maximum each. The weights, which come from floating point numbers, are given for each round. Sums are
of `int32` that do not overflow; the product in `_LayoutMax()` does.
-/

namespace Haiku.Layout

open Function

/-- `B_SIZE_UNLIMITED` -/
def sizeUnlimited : ℤ := 1024 * 1024 * 1024

def addSizesInt32 (a b : ℤ) : ℤ := if a ≥ sizeUnlimited - b then sizeUnlimited else a + b

structure ElementInfo where
  min : ℤ
  max : ℤ
  preferred : ℤ

structure SimpleLayouter (n : ℕ) where
  info : Fin n → ElementInfo
  fSpacing : ℤ
  fMin : ℤ
  fMax : ℤ
  fPreferred : ℤ

/-- The sizes and the locations of the elements -/
structure LayoutInfo (n : ℕ) where
  size : Fin n → ℤ
  location : Fin n → ℤ

structure Round (n : ℕ) where
  assignedWeight : ℤ
  assignedSize : ℤ
  remainingSpace : ℤ
  size : Fin n → ℤ
  infosUnderMax : List (Fin n)
  infosOverMin : List (Fin n)

def differences {n : ℕ} (s : ℕ → ℤ) (i : Fin n) : ℤ := s (i + 1) - s i

/-- `DistributeSize()`, with the integer weights -/
def distributeSize {n : ℕ} (size : ℤ) (tempWeight : Fin n → ℤ) : Fin n → ℤ :=
  differences fun i =>
    (size * (((List.finRange n).take i).map tempWeight).sum).tdiv (∑ j, tempWeight j)

/-- The maximum and the preferred size of an element are corrected. -/
def ElementInfo.correct (info : ElementInfo) : ElementInfo :=
  let max := if info.max < info.min then info.min else info.max
  { info with
    max       := max
    preferred := if info.preferred < info.min then info.min
      else if info.preferred > max then max else info.preferred }

variable {n : ℕ}

/-- An element gets the difference of what is assigned to all elements up to it and of what is assigned
without it. -/
def layoutElement (info : Fin n → ElementInfo) (tempWeight : Fin n → ℤ) (space sumWeight : ℤ)
    (r : Round n) (i : Fin n) : Round n :=
  let assignedWeight := r.assignedWeight + tempWeight i
  let assignedSize := (space * assignedWeight).tdiv sumWeight
  let assigned := r.size i + (assignedSize - r.assignedSize)
  let size := if assigned < (info i).min then (info i).min
    else if assigned > (info i).max then (info i).max else assigned
  { assignedWeight := assignedWeight
    assignedSize   := assignedSize
    remainingSpace := r.remainingSpace + (assigned - size)
    size           := update r.size i size
    infosUnderMax  := if size < (info i).max then r.infosUnderMax ++ [i] else r.infosUnderMax
    infosOverMin   := if size > (info i).min then r.infosOverMin ++ [i] else r.infosOverMin }

def layoutRound (info : Fin n → ElementInfo) (tempWeight : Fin n → ℤ) (space : ℤ) (size : Fin n → ℤ)
    (infosToLayout : List (Fin n)) : Round n :=
  infosToLayout.foldl (layoutElement info tempWeight space (infosToLayout.map tempWeight).sum)
    ⟨0, 0, 0, size, [], []⟩

def Round.infosToLayout (r : Round n) : List (Fin n) :=
  if r.remainingSpace > 0 then r.infosUnderMax
  else if r.remainingSpace < 0 then r.infosOverMin else []

/-- The loop of `_LayoutStandard()`, with a bound for its rounds -/
def layoutRounds (info : Fin n → ElementInfo) (tempWeight : List (Fin n) → Fin n → ℤ) :
    ℕ → ℤ → (Fin n → ℤ) → List (Fin n) → Option (Fin n → ℤ)
  | _, _, size, [] => some size
  | 0, _, _, _ => none
  | fuel + 1, space, size, infosToLayout =>
    let r := layoutRound info (tempWeight infosToLayout) space size infosToLayout
    layoutRounds info tempWeight fuel r.remainingSpace r.size r.infosToLayout

namespace SimpleLayouter

def validateMinMax (l : SimpleLayouter n) : SimpleLayouter n :=
  if n = 0 then { l with fMin := 0, fMax := sizeUnlimited, fPreferred := 0 }
  else
    let spacing := (n - 1) * l.fSpacing
    let info i := (l.info i).correct
    { l with
      info       := info
      fMin       := (List.finRange n).foldl (fun sum i => sum + (info i).min) spacing
      fMax       := (List.finRange n).foldl (fun sum i => addSizesInt32 sum (info i).max) spacing
      fPreferred := (List.finRange n).foldl (fun sum i => addSizesInt32 sum (info i).preferred) spacing }

/-- `_LayoutMax()`, which multiplies in 32 bits -/
def layoutMax (l : SimpleLayouter n) (fSize : ℤ) (i : Fin n) : ℤ :=
  (l.info i).max + differences (fun i => (((fSize - l.fMax) * i).bmod (2 ^ 32)).tdiv n) i

def layoutStandard (l : SimpleLayouter n) (tempWeight : List (Fin n) → Fin n → ℤ) (fSize : ℤ) :
    Option (Fin n → ℤ) :=
  layoutRounds l.info tempWeight (n + 1) (fSize - (n - 1) * l.fSpacing) (fun _ => 0) (List.finRange n)

def layout (l : SimpleLayouter n) (tempWeight : List (Fin n) → Fin n → ℤ) (size : ℤ) :
    Option (LayoutInfo n) :=
  let l := l.validateMinMax
  let fSize := max size l.fMin
  (if fSize ≥ l.fMax then some (l.layoutMax fSize) else l.layoutStandard tempWeight fSize).map
    fun size => ⟨size, fun i => (((List.finRange n).take i).map fun j => l.fSpacing + size j).sum⟩

end SimpleLayouter

/-! ## Differences -/

lemma sum_differences (s : ℕ → ℤ) : ∑ i : Fin n, differences s i = s n - s 0 := by
  rw [← Finset.sum_range_sub s n, ← Fin.sum_univ_eq_sum_range (fun i => s (i + 1) - s i) n]
  rfl

lemma differences_nonneg {s : ℕ → ℤ} (i : Fin n) (h : s i ≤ s (i + 1)) : 0 ≤ differences s i :=
  sub_nonneg.2 h

lemma sum_take_succ (w : Fin n → ℤ) (i : Fin n) :
    (((List.finRange n).take (i + 1)).map w).sum = (((List.finRange n).take i).map w).sum + w i := by
  have hlt : (i : ℕ) < (List.finRange n).length := by simp
  rw [List.take_succ_eq_append_getElem hlt, List.map_append, List.sum_append]
  simp

lemma distributeSize_right {w : Fin n → ℤ} {size : ℤ} (hsize : 0 ≤ size) (hw : ∀ i, 0 ≤ w i)
    (hsum : 0 < ∑ i, w i) :
    (∀ i, 0 ≤ distributeSize size w i) ∧ ∑ i, distributeSize size w i = size := by
  constructor
  · intro i
    apply differences_nonneg
    rw [sum_take_succ]
    have := hw i
    exact Int.tdiv_le_tdiv hsum (Int.mul_le_mul_of_nonneg_left (by omega) hsize)
  · have hall : ((List.finRange n).map w).sum = ∑ i, w i := (Fin.sum_univ_def w).symm
    unfold distributeSize
    rw [sum_differences, List.take_of_length_le (by simp), hall, Int.mul_tdiv_cancel _ hsum.ne']
    simp

/-! ## Rounds -/

section

variable {info : Fin n → ElementInfo} {w : Fin n → ℤ} {space sumWeight : ℤ} {size : Fin n → ℤ}
  {done l : List (Fin n)} {r : Round n} {i : Fin n}

/-- The loop of a round has been over the elements `done`. -/
structure Round.Inv (info : Fin n → ElementInfo) (w : Fin n → ℤ) (space sumWeight : ℤ)
    (size : Fin n → ℤ) (done : List (Fin n)) (r : Round n) : Prop where
  weight : r.assignedWeight = (done.map w).sum
  assigned : r.assignedSize = (space * (done.map w).sum).tdiv sumWeight
  total : ∑ i, r.size i + r.remainingSpace = ∑ i, size i + r.assignedSize
  inside : ∀ i ∈ done, (info i).min ≤ r.size i ∧ r.size i ≤ (info i).max
  outside : ∀ i ∉ done, r.size i = size i
  underMax : ∀ i ∈ done, i ∉ r.infosUnderMax → r.size i = (info i).max
  overMin : ∀ i ∈ done, i ∉ r.infosOverMin → r.size i = (info i).min
  subUnder : r.infosUnderMax.Sublist done
  subOver : r.infosOverMin.Sublist done
  fewerUnder : r.infosUnderMax.length < done.length ∨ r.remainingSpace ≤ 0
  fewerOver : r.infosOverMin.length < done.length ∨ 0 ≤ r.remainingSpace
  nonneg : 0 ≤ space → (∀ i, (info i).min ≤ size i) → 0 ≤ r.remainingSpace
  nonpos : space ≤ 0 → (∀ i, size i ≤ (info i).max) → r.remainingSpace ≤ 0

lemma sum_update (f : Fin n → ℤ) (i : Fin n) (x : ℤ) :
    ∑ j, update f i x j = ∑ j, f j + (x - f i) := by
  have h := Finset.sum_update_of_mem (Finset.mem_univ i) f x
  have h' := Finset.sum_sdiff (Finset.subset_univ {i}) (f := f)
  rw [Finset.sum_singleton] at h'
  omega

lemma bound_next {p : Prop} [Decidable p] {list : List (Fin n)} {bound : Fin n → ℤ} {x : ℤ}
    (h : ∀ j ∈ done, j ∉ list → size j = bound j) (hx : ¬ p → x = bound i) :
    ∀ j ∈ done ++ [i], j ∉ (if p then list ++ [i] else list) → update size i x j = bound j := by
  intro j hj hnot
  by_cases hji : j = i
  · subst hji
    rw [update_self]
    apply hx
    intro hp
    rw [if_pos hp] at hnot
    exact hnot (List.mem_append_right _ (List.mem_singleton_self j))
  · rw [update_of_ne hji]
    apply h j
    · exact (List.mem_append.1 hj).resolve_right fun h' => hji (List.mem_singleton.1 h')
    · intro hmem
      apply hnot
      split
      · exact List.mem_append_left _ hmem
      · exact hmem

lemma Round.Inv.element (h : r.Inv info w space sumWeight size done) (hi : i ∉ done)
    (hle : (info i).min ≤ (info i).max) (hw : 0 ≤ w i) (hsum : 0 < sumWeight) :
    (layoutElement info w space sumWeight r i).Inv info w space sumWeight size (done ++ [i]) := by
  have hweight : ((done ++ [i]).map w).sum = r.assignedWeight + w i := by
    rw [h.weight, List.map_append, List.sum_append]
    simp
  have hassigned := h.assigned
  rw [← h.weight] at hassigned
  unfold layoutElement
  dsimp only
  generalize hnext : (space * (r.assignedWeight + w i)).tdiv sumWeight = next
  have hup : 0 ≤ space → r.assignedSize ≤ next := by
    intro hspace
    rw [hassigned, ← hnext]
    exact Int.tdiv_le_tdiv hsum (Int.mul_le_mul_of_nonneg_left (by omega) hspace)
  have hdown : space ≤ 0 → next ≤ r.assignedSize := by
    intro hspace
    rw [hassigned, ← hnext]
    exact Int.tdiv_le_tdiv hsum (Int.mul_le_mul_of_nonpos_left hspace (by omega))
  generalize hto : r.size i + (next - r.assignedSize) = assigned
  generalize hnew : (if assigned < (info i).min then (info i).min
    else if assigned > (info i).max then (info i).max else assigned) = new
  have hnew' : (info i).min ≤ new ∧ new ≤ (info i).max ∧ (new < assigned → new = (info i).max) ∧
      (assigned < new → new = (info i).min) := by
    rw [← hnew]
    split_ifs <;> omega
  have hold := h.outside i hi
  have hother : ∀ j ∈ done, update r.size i new j = r.size j := by
    intro j hj
    exact update_of_ne (ne_of_mem_of_not_mem hj hi) _ _
  have hself : update r.size i new i = new := update_self i new r.size
  exact {
    weight := hweight.symm
    assigned := by rw [hweight]; exact hnext.symm
    total := by
      have htotal := h.total
      show ∑ j, update r.size i new j + (r.remainingSpace + (assigned - new)) = _ + next
      rw [sum_update]
      omega
    inside := by
      intro j hj
      dsimp only
      rcases List.mem_append.1 hj with hj | hj
      · rw [hother j hj]
        exact h.inside j hj
      · rw [List.mem_singleton.1 hj, hself]
        exact ⟨hnew'.1, hnew'.2.1⟩
    outside := by
      intro j hj
      rw [List.mem_append, List.mem_singleton, not_or] at hj
      exact (update_of_ne hj.2 _ _).trans (h.outside j hj.1)
    underMax := bound_next h.underMax fun hno => by omega
    overMin := bound_next h.overMin fun hno => by omega
    subUnder := by
      dsimp only
      split_ifs
      · exact h.subUnder.append_right [i]
      · exact h.subUnder.trans (List.sublist_append_left _ _)
    subOver := by
      dsimp only
      split_ifs
      · exact h.subOver.append_right [i]
      · exact h.subOver.trans (List.sublist_append_left _ _)
    fewerUnder := by
      have hle := h.subUnder.length_le
      have := h.fewerUnder
      dsimp only
      rw [List.length_append, List.length_singleton]
      split_ifs
      · rw [List.length_append, List.length_singleton]
        omega
      · omega
    fewerOver := by
      have hle := h.subOver.length_le
      have := h.fewerOver
      dsimp only
      rw [List.length_append, List.length_singleton]
      split_ifs
      · rw [List.length_append, List.length_singleton]
        omega
      · omega
    nonneg := by
      intro hspace hmin
      have := h.nonneg hspace hmin
      have := hup hspace
      have := hmin i
      show 0 ≤ r.remainingSpace + (assigned - new)
      omega
    nonpos := by
      intro hspace hmax
      have := h.nonpos hspace hmax
      have := hdown hspace
      have := hmax i
      show r.remainingSpace + (assigned - new) ≤ 0
      omega }

lemma layoutRound_inv (hl : l.Nodup) (hle : ∀ i, (info i).min ≤ (info i).max)
    (hw : ∀ i ∈ l, 0 ≤ w i) (hsum : 0 < (l.map w).sum) :
    (layoutRound info w space size l).Inv info w space (l.map w).sum size l := by
  have hgo : ∀ (rest done : List (Fin n)) (r : Round n), (done ++ rest).Nodup → (∀ i ∈ rest, 0 ≤ w i) →
      r.Inv info w space (l.map w).sum size done →
      (rest.foldl (layoutElement info w space (l.map w).sum) r).Inv info w space (l.map w).sum size
        (done ++ rest) := by
    intro rest
    induction rest with
    | nil =>
      intro done r _ _ h
      rwa [List.append_nil]
    | cons i rest ih =>
      intro done r hnodup hw h
      have hi : i ∉ done := fun hmem =>
        List.disjoint_of_nodup_append hnodup hmem List.mem_cons_self
      have hnext := h.element hi (hle i) (hw i List.mem_cons_self) hsum
      have hsplit : done ++ i :: rest = (done ++ [i]) ++ rest := by simp
      rw [hsplit] at hnodup ⊢
      exact ih _ _ hnodup (fun j hj => hw j (List.mem_cons_of_mem _ hj)) hnext
  refine hgo l [] _ hl hw ⟨rfl, ?_, ?_, ?_, fun _ _ => rfl, ?_, ?_, .refl _, .refl _, Or.inr le_rfl,
    Or.inr le_rfl, fun _ _ => le_rfl, fun _ _ => le_rfl⟩
  · simp
  · rfl
  all_goals simp

/-- Where the loop over the rounds stands: `total` is handed out, or left. -/
structure Rounds (info : Fin n → ElementInfo) (total space : ℤ) (size : Fin n → ℤ)
    (l : List (Fin n)) : Prop where
  nodup : l.Nodup
  total : ∑ i, size i + space = total
  inside : ∀ i, (info i).min ≤ size i ∧ size i ≤ (info i).max
  max : 0 < space → ∀ i ∉ l, size i = (info i).max
  min : space < 0 → ∀ i ∉ l, size i = (info i).min
  done : space = 0 → l = []

lemma Round.Inv.rounds {W total : ℤ} (h : r.Inv info w space W size l) (hl : l.Nodup)
    (hassigned : r.assignedSize = space) (htotal : ∑ i, size i + space = total)
    (hinside : ∀ i ∉ l, (info i).min ≤ size i ∧ size i ≤ (info i).max)
    (hmax : 0 < r.remainingSpace → ∀ i ∉ l, size i = (info i).max)
    (hmin : r.remainingSpace < 0 → ∀ i ∉ l, size i = (info i).min) :
    Rounds info total r.remainingSpace r.size r.infosToLayout := by
  unfold Round.infosToLayout
  refine ⟨?_, ?_, fun i => ?_, fun hpos i hi => ?_, fun hneg i hi => ?_, fun hzero => ?_⟩
  · split_ifs
    · exact h.subUnder.nodup hl
    · exact h.subOver.nodup hl
    · exact List.nodup_nil
  · have := h.total
    omega
  · by_cases hi : i ∈ l
    · exact h.inside i hi
    · rw [h.outside i hi]
      exact hinside i hi
  · rw [if_pos hpos] at hi
    by_cases hil : i ∈ l
    · exact h.underMax i hil hi
    · exact (h.outside i hil).trans (hmax hpos i hil)
  · rw [if_neg (by omega), if_pos hneg] at hi
    by_cases hil : i ∈ l
    · exact h.overMin i hil hi
    · exact (h.outside i hil).trans (hmin hneg i hil)
  · rw [if_neg (by omega), if_neg (by omega)]

lemma Round.Inv.fewer {W : ℤ} (h : r.Inv info w space W size l) (hl : l ≠ []) :
    r.infosToLayout.length < l.length := by
  have hunder := h.fewerUnder
  have hover := h.fewerOver
  unfold Round.infosToLayout
  split_ifs
  · omega
  · omega
  · exact List.length_pos_iff.2 hl

variable {tempWeight : List (Fin n) → Fin n → ℤ}

/-- The weights of a round are not negative, and not all of them are zero. -/
def Weighs (tempWeight : List (Fin n) → Fin n → ℤ) : Prop :=
  ∀ l ≠ [], (∀ i ∈ l, 0 ≤ tempWeight l i) ∧ 0 < (l.map (tempWeight l)).sum

lemma layoutRounds_succ (hl : l ≠ []) (fuel : ℕ) :
    layoutRounds info tempWeight (fuel + 1) space size l =
      layoutRounds info tempWeight fuel
        (layoutRound info (tempWeight l) space size l).remainingSpace
        (layoutRound info (tempWeight l) space size l).size
        (layoutRound info (tempWeight l) space size l).infosToLayout := by
  cases l with
  | nil => exact absurd rfl hl
  | cons i l => rfl

lemma layoutRound_assigned (hweighs : Weighs tempWeight) (hle : ∀ i, (info i).min ≤ (info i).max)
    (hl : l.Nodup) (hne : l ≠ []) (space : ℤ) (size : Fin n → ℤ) :
    ∃ W, (layoutRound info (tempWeight l) space size l).Inv info (tempWeight l) space W size l ∧
      (layoutRound info (tempWeight l) space size l).assignedSize = space := by
  obtain ⟨hw, hsum⟩ := hweighs l hne
  have h : (layoutRound info (tempWeight l) space size l).Inv info (tempWeight l) space _ size l :=
    layoutRound_inv hl hle hw hsum
  exact ⟨_, h, h.assigned.trans (Int.mul_tdiv_cancel space hsum.ne')⟩

lemma Rounds.sum_eq {total : ℤ} (h : Rounds info total space size [])
    (hmin : ∑ i, (info i).min ≤ total) (hmax : total ≤ ∑ i, (info i).max) :
    ∑ i, size i = total := by
  have htotal := h.total
  rcases lt_trichotomy space 0 with hneg | hzero | hpos
  · have hall : ∑ i, size i = ∑ i, (info i).min :=
      Finset.sum_congr rfl fun i _ => h.min hneg i List.not_mem_nil
    omega
  · omega
  · have hall : ∑ i, size i = ∑ i, (info i).max :=
      Finset.sum_congr rfl fun i _ => h.max hpos i List.not_mem_nil
    omega

lemma layoutRounds_right {total : ℤ} {fuel : ℕ} (hweighs : Weighs tempWeight)
    (hle : ∀ i, (info i).min ≤ (info i).max) (hmin : ∑ i, (info i).min ≤ total)
    (hmax : total ≤ ∑ i, (info i).max) (h : Rounds info total space size l) (hfuel : l.length ≤ fuel) :
    ∃ size', layoutRounds info tempWeight fuel space size l = some size' ∧ ∑ i, size' i = total ∧
      ∀ i, (info i).min ≤ size' i ∧ size' i ≤ (info i).max := by
  induction fuel generalizing space size l with
  | zero =>
    have hl : l = [] := List.length_eq_zero_iff.1 (by omega)
    subst hl
    exact ⟨size, rfl, h.sum_eq hmin hmax, h.inside⟩
  | succ fuel ih =>
    by_cases hl : l = []
    · subst hl
      exact ⟨size, rfl, h.sum_eq hmin hmax, h.inside⟩
    · obtain ⟨W, hround, hassigned⟩ := layoutRound_assigned hweighs hle h.nodup hl space size
      have hfewer := hround.fewer hl
      rw [layoutRounds_succ hl]
      generalize layoutRound info (tempWeight l) space size l = r at hround hassigned hfewer ⊢
      refine ih (hround.rounds h.nodup hassigned h.total (fun i _ => h.inside i) ?_ ?_) (by omega)
      · intro hpos i hi
        have hspace : 0 < space := by
          by_contra hno
          have := hround.nonpos (by omega) fun i => (h.inside i).2
          omega
        exact h.max hspace i hi
      · intro hneg i hi
        have hspace : space < 0 := by
          by_contra hno
          have := hround.nonneg (by omega) fun i => (h.inside i).1
          omega
        exact h.min hspace i hi
end

/-! ## The layout -/

/-- The minimum and the maximum size of the layout, which are sums -/
def SimpleLayouter.minTotal (l : SimpleLayouter n) : ℤ := (n - 1) * l.fSpacing + ∑ i, (l.info i).min

def SimpleLayouter.maxTotal (l : SimpleLayouter n) : ℤ :=
  (n - 1) * l.fSpacing + ∑ i, (l.info i).correct.max

lemma foldl_add (f : Fin n → ℤ) (list : List (Fin n)) (a : ℤ) :
    list.foldl (fun sum i => sum + f i) a = a + (list.map f).sum := by
  induction list generalizing a with
  | nil => simp
  | cons i list ih =>
    rw [List.foldl_cons, ih, List.map_cons, List.sum_cons, add_assoc]

lemma addSizesInt32_eq (a b : ℤ) : addSizesInt32 a b = min (a + b) sizeUnlimited := by
  unfold addSizesInt32
  split_ifs <;> omega

lemma foldl_addSizes {f : Fin n → ℤ} (hf : ∀ i, 0 ≤ f i) (i : Fin n) (list : List (Fin n)) (a : ℤ) :
    (i :: list).foldl (fun sum i => addSizesInt32 sum (f i)) a =
      min (a + ((i :: list).map f).sum) sizeUnlimited := by
  induction list generalizing a i with
  | nil => simp [addSizesInt32_eq]
  | cons j list ih =>
    have hj := hf j
    have hrest : 0 ≤ (list.map f).sum := List.sum_nonneg (by simpa using fun k _ => hf k)
    rw [List.foldl_cons, ih, addSizesInt32_eq]
    simp only [List.map_cons, List.sum_cons]
    omega

variable {l : SimpleLayouter n} {tempWeight : List (Fin n) → Fin n → ℤ}

lemma ElementInfo.min_le_correct (info : ElementInfo) : info.min ≤ info.correct.max := by
  unfold ElementInfo.correct
  dsimp only
  split_ifs <;> omega

namespace SimpleLayouter

lemma validateMinMax_eq (hn : 0 < n) (hmin : ∀ i, 0 ≤ (l.info i).min) :
    (∀ i, l.validateMinMax.info i = (l.info i).correct) ∧ l.validateMinMax.fSpacing = l.fSpacing ∧
      l.validateMinMax.fMin = l.minTotal ∧ l.validateMinMax.fMax = min l.maxTotal sizeUnlimited := by
  have hmax : ∀ i, 0 ≤ (l.info i).correct.max := fun i =>
    (hmin i).trans (l.info i).min_le_correct
  unfold validateMinMax
  rw [if_neg (by omega)]
  refine ⟨fun i => rfl, rfl, ?_, ?_⟩
  · exact (foldl_add _ _ _).trans (congrArg _ (Fin.sum_univ_def _).symm)
  · have hne : List.finRange n ≠ [] := by
      rw [← List.length_pos_iff]
      simpa using hn
    obtain ⟨i, list, heq⟩ := List.exists_cons_of_ne_nil hne
    dsimp only
    rw [heq, foldl_addSizes hmax, ← heq, maxTotal, Fin.sum_univ_def]

/-- The size of the layout is below the maximum, or the maximum is not cut and the product of what is
beyond it and the number of elements does not overflow. -/
def Meets (l : SimpleLayouter n) (size : ℤ) : Prop :=
  max size l.minTotal < min l.maxTotal sizeUnlimited ∨
    l.maxTotal ≤ sizeUnlimited ∧ (max size l.minTotal - l.maxTotal) * n < 2 ^ 31

structure Filled (l : SimpleLayouter n) (fSize : ℤ) (info : LayoutInfo n) : Prop where
  min : ∀ i, (l.info i).min ≤ info.size i
  sum : ∑ i, info.size i + (n - 1) * l.fSpacing = fSize
  max : fSize ≤ l.validateMinMax.fMax → ∀ i, info.size i ≤ (l.info i).correct.max

lemma layoutStandard_right (hn : 0 < n) (hweighs : Weighs tempWeight)
    (hle : ∀ i, (l.info i).min ≤ (l.info i).max) {fSize : ℤ} (hmin : l.minTotal ≤ fSize)
    (hmax : fSize ≤ (n - 1) * l.fSpacing + ∑ i, (l.info i).max) :
    ∃ size, l.layoutStandard tempWeight fSize = some size ∧
      ∑ i, size i + (n - 1) * l.fSpacing = fSize ∧
      ∀ i, (l.info i).min ≤ size i ∧ size i ≤ (l.info i).max := by
  unfold layoutStandard
  unfold minTotal at hmin
  generalize (n - 1 : ℤ) * l.fSpacing = spacing at hmin hmax ⊢
  have hall : ∀ i, i ∈ List.finRange n := List.mem_finRange
  have hne : List.finRange n ≠ [] := by
    rw [← List.length_pos_iff]
    simpa using hn
  obtain ⟨W, hround, hassigned⟩ := layoutRound_assigned hweighs hle (List.nodup_finRange n) hne
    (fSize - spacing) fun _ => 0
  have hfewer := hround.fewer hne
  rw [layoutRounds_succ hne]
  generalize layoutRound l.info (tempWeight (List.finRange n)) (fSize - spacing) (fun _ => 0)
    (List.finRange n) = r at hround hassigned hfewer ⊢
  have hrounds : Rounds l.info (fSize - spacing) r.remainingSpace r.size r.infosToLayout :=
    hround.rounds (List.nodup_finRange n) hassigned (by simp) (fun i hi => absurd (hall i) hi)
      (fun _ i hi => absurd (hall i) hi) (fun _ i hi => absurd (hall i) hi)
  obtain ⟨size, hsize, hsum, hinside⟩ := layoutRounds_right hweighs hle (by omega) (by omega) hrounds
    (by rw [List.length_finRange] at hfewer; omega : _ ≤ n)
  exact ⟨size, hsize, by omega, hinside⟩

lemma bmod_mul {x : ℤ} {k : ℕ} (hx : 0 ≤ x) (hk : k ≤ n) (hfits : x * n < 2 ^ 31) :
    (x * k).bmod (2 ^ 32) = x * k := by
  have hle : x * k ≤ x * n := Int.mul_le_mul_of_nonneg_left (by omega) hx
  have hnonneg : 0 ≤ x * k := Int.mul_nonneg hx (by omega)
  generalize x * k = y at hle hnonneg ⊢
  exact Int.bmod_eq_of_le (by omega) (by omega)

lemma sum_layoutMax (l : SimpleLayouter n) (fSize : ℤ) :
    ∑ i, l.layoutMax fSize i =
      ∑ i, (l.info i).max + (((fSize - l.fMax) * n).bmod (2 ^ 32)).tdiv n := by
  unfold layoutMax
  rw [Finset.sum_add_distrib, sum_differences]
  simp

def twoElements (max : ℤ) : SimpleLayouter 2 := ⟨fun _ => ⟨0, max, 0⟩, 3, 0, 0, 0⟩

end SimpleLayouter

end Haiku.Layout
