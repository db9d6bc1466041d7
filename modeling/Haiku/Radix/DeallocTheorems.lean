import Haiku.Radix.AllocTheorems

/-!
# Freeing slots

A range of slots is cut at the borders of the children of a node. `Deallocates` is what each level
does with its part of the range: the hints on the way are raised, so that none of them is too low.
-/

namespace Haiku.Radix

def freed (free : ℕ → Bool) (a c : ℕ) : ℕ → Bool := fun x => free x || (a ≤ x && x < a + c)

variable {free : ℕ → Bool} {nodes nodes' : Nodes} {slots a c k o base : ℕ}

lemma freed_of_notMem {x : ℕ} (h : x < a ∨ a + c ≤ x) : freed free a c x = free x := by
  have hout : (decide (a ≤ x) && decide (x < a + c)) = false := by
    rw [Bool.and_eq_false_iff, decide_eq_false_iff_not, decide_eq_false_iff_not]
    omega
  rw [freed, hout, Bool.or_false]

lemma freed_of_mem {x : ℕ} (h : a ≤ x) (h' : x < a + c) : freed free a c x = true := by
  simp [freed, h, h']

lemma freed_zero : freed free a 0 = free := by
  funext x
  exact freed_of_notMem (by omega)

lemma freed_freed {v : ℕ} (hv : v ≤ c) :
    freed (freed free a v) (a + v) (c - v) = freed free a c := by
  funext x
  by_cases hlow : a + v ≤ x ∧ x < a + c
  · rw [freed_of_mem hlow.1 (by omega), freed_of_mem (by omega) hlow.2]
  · rw [freed_of_notMem (by omega)]
    by_cases hmem : a ≤ x ∧ x < a + v
    · rw [freed_of_mem hmem.1 hmem.2, freed_of_mem hmem.1 (by omega)]
    · rw [freed_of_notMem (by omega), freed_of_notMem (by omega)]

lemma freeBelow_freed (hlow : base ≤ a) (hhigh : a + c ≤ base + span k)
    (hused : ∀ i < c, free (a + i) = false) :
    freeBelow (freed free a c) k base = freeBelow free k base + c := by
  have hback : taken (freed free a c) a c = free := by
    funext x
    by_cases hmem : a ≤ x ∧ x < a + c
    · have hx := hused (x - a) (by omega)
      rw [show a + (x - a) = x by omega] at hx
      rw [taken_of_mem hmem.1 hmem.2, hx]
    · rw [taken_of_notMem (by omega), freed_of_notMem (by omega)]
  have hcount := @freeBelow_taken (freed free a c) a c k base hlow hhigh fun i hi =>
    freed_of_mem (by omega) (by omega)
  rw [hback] at hcount
  exact hcount.symm

def Deallocates (slots k : ℕ) (f : Nodes → ℕ → ℕ → ℕ → ℕ → Option Nodes) : Prop :=
  ∀ free nodes o a c base, Tree nodes free slots k o base → 32 ∣ base → 1 ≤ c → base ≤ a →
    a + c ≤ base + span k → a + c ≤ slots → (∀ i < c, free (a + i) = false) →
    ∃ nodes', f nodes o a c base = some nodes' ∧ Frame nodes nodes' o (width k) ∧
      Tree nodes' (freed free a c) slots k o base

/-! ## Leaves -/

lemma radixLeafDealloc_deallocates :
    Deallocates slots 0 fun nodes leaf slotIndex count _ =>
      radixLeafDealloc nodes leaf slotIndex count := by
  intro free nodes o a c base htree halign hc hlow hhigh _ _
  obtain ⟨ho, _, hbits⟩ := htree
  have hend : a + c ≤ base + 32 := hhigh
  have hn : a % bitmapRadix = a - base := by
    have : a % 32 = a - base := by omega
    exact this
  simp only [radixLeafDealloc, Nodes.read_of_lt ho, Option.bind_some, Nodes.write_of_lt ho, hn]
  refine ⟨_, rfl, Frame.set, ho, ?_, fun i hi => ?_⟩
  · rw [Nodes.set_self]
    refine ⟨Int.natCast_nonneg _, fun d hrun => ?_⟩
    obtain ⟨j, hj, _⟩ := hrun
    show (d : ℤ) ≤ 32
    omega
  · -- the mask has the bits of the range
    have hshift : (bitmapRadix - c - (a - base)) % 32 = 32 - c - (a - base) := by
      show (32 - c - (a - base)) % 32 = 32 - c - (a - base)
      omega
    have hmask : (shiftRight (BitVec.allOnes 32) (bitmapRadix - c - (a - base)) &&&
        BitVec.allOnes 32 <<< (a - base)).getLsbD i = decide (a ≤ base + i ∧ base + i < a + c) := by
      rw [shiftRight, hshift, BitVec.getLsbD_and, BitVec.getLsbD_ushiftRight,
        BitVec.getLsbD_shiftLeft, BitVec.getLsbD_allOnes, BitVec.getLsbD_allOnes, Bool.eq_iff_iff]
      simp only [Bool.and_eq_true, Bool.not_eq_true', decide_eq_true_eq, decide_eq_false_iff_not]
      omega
    rw [Nodes.set_self, BitVec.getLsbD_and, BitVec.getLsbD_not, hmask, hbits i hi,
      decide_eq_true hi, Bool.true_and]
    by_cases hmem : a ≤ base + i ∧ base + i < a + c
    · rw [decide_eq_true hmem, freed_of_mem hmem.1 hmem.2, Bool.not_true, Bool.and_false]
    · rw [decide_eq_false hmem, freed_of_notMem (by omega), Bool.not_false, Bool.and_true]

/-! ## Inner nodes -/

lemma Hinted.raise {hint hint' : ℤ} {free' : ℕ → Bool} {j : ℕ}
    (h : Hinted hint free (k + 1) base) (h' : Hinted hint' free' k (base + j * span k))
    (hfree : ∀ x, x < base + j * span k ∨ base + j * span k + span k ≤ x → free' x = free x) :
    Hinted (if hint < hint' then hint' else hint) free' (k + 1) base := by
  have hmax : hint ≤ (if hint < hint' then hint' else hint) ∧
      hint' ≤ (if hint < hint' then hint' else hint) := by
    split <;> omega
  have hpos := h.1
  refine ⟨by omega, fun d hrun => ?_⟩
  obtain ⟨i, hi, hrun⟩ := hrun
  by_cases hij : i = j
  · subst hij
    have := h'.2 d hrun
    omega
  · have hdisjoint := child_disjoint (span k) hij
    have hold : Runs free k (base + i * span k) d := by
      apply hrun.mono _ le_rfl
      intro x hx hx' hf
      rw [← hfree x (by omega)]
      exact hf
    have := h.2 d ⟨i, hi, hold⟩
    omega

lemma deallocLoop_spec {child : Nodes → ℕ → ℕ → ℕ → ℕ → Option Nodes} {fuel j : ℕ}
    (hchild : Deallocates slots k child) (halign : 32 ∣ base) (hfuel : 17 ≤ fuel + j) (hj : j ≤ 16)
    (ho : o < nodes.size) (hhint : Hinted (nodes.at_ o).bigHint free (k + 1) base)
    (hchildren : Children (Tree nodes free slots k) nodes slots k o base)
    (hhigh : a + c ≤ base + span (k + 1)) (hslots : a + c ≤ slots)
    (hused : ∀ i < c, free (a + i) = false)
    (hat : c = 0 ∧ a ≤ base + j * span k ∨
      0 < c ∧ base + j * span k ≤ a ∧ a < base + j * span k + span k) :
    ∃ nodes', deallocLoop child o (span k) (16 * width k) (width k) fuel nodes (j * width k + 1)
        (base + j * span k) a c = some nodes' ∧
      Frame nodes nodes' o (width (k + 1)) ∧
      (nodes'.at_ o).available = (nodes.at_ o).available ∧
      Hinted (nodes'.at_ o).bigHint (freed free a c) (k + 1) base ∧
      Children (Tree nodes' (freed free a c) slots k) nodes' slots k o base := by
  induction fuel generalizing nodes free j a c with
  | zero => omega
  | succ fuel ih =>
    have hpos := width_pos k
    rw [deallocLoop]
    by_cases hdone : c = 0 ∧ a ≤ base + j * span k
    · rw [if_neg (by omega), hdone.1, freed_zero]
      exact ⟨nodes, rfl, Frame.refl, rfl, hhint, hchildren⟩
    · have hc : 0 < c := by omega
      have hlow : base + j * span k ≤ a := by omega
      have hbelow : a < base + j * span k + span k := by omega
      have hmore : j < 16 := by
        by_contra hge
        have hle : 16 * span k ≤ j * span k := Nat.mul_le_mul_right _ (by omega)
        rw [span_succ] at hhigh
        omega
      have hin : o + 1 + j * width k + width k ≤ o + width (k + 1) := child_in hmore
      have hskip : j * width k + 1 ≤ 16 * width k := by
        rw [width] at hin
        omega
      have hnode : o + (j * width k + 1) = o + 1 + j * width k := by omega
      rw [if_pos ⟨hskip, by omega⟩, hnode]
      -- the part of the range that belongs to this child
      obtain ⟨v, hv⟩ : ∃ v, v = min (base + j * span k + span k - a) c := ⟨_, rfl⟩
      have hvc : v ≤ c := by omega
      have hvspan : a + v ≤ base + j * span k + span k := by omega
      have htree := (hchildren j hmore).1 (by omega)
      have halign' : 32 ∣ base + j * span k := Nat.dvd_add halign (Dvd.dvd.mul_left (dvd_span k) j)
      obtain ⟨nodes₁, heq, hframe, htree₁⟩ := hchild free nodes _ a v _ htree halign' (by omega)
        hlow hvspan (by omega) fun i hi => hused i (by omega)
      have hsame : nodes₁.at_ o = nodes.at_ o := hframe.same o (by omega)
      have ho₁ : o < nodes₁.size := by
        rw [hframe.size]
        exact ho
      have hfree : ∀ x, x < base + j * span k ∨ base + j * span k + span k ≤ x →
          freed free a v x = free x := fun x hx => freed_of_notMem (by omega)
      have hchildren₁ := hchildren.update (by omega) hframe htree₁ hfree
      have hhint₁ : Hinted (if (nodes₁.at_ o).bigHint < (nodes₁.at_ (o + 1 + j * width k)).bigHint
          then (nodes₁.at_ (o + 1 + j * width k)).bigHint else (nodes₁.at_ o).bigHint)
          (freed free a v) (k + 1) base := by
        rw [hsame]
        exact hhint.raise htree₁.hinted.2 hfree
      rw [← hv]
      simp only [heq, Option.bind_some, Nodes.read_of_lt htree₁.hinted.1, Nodes.read_of_lt ho₁,
        Nodes.write_of_lt ho₁]
      obtain ⟨nodes₂, hnodes₂⟩ : ∃ nodes₂, nodes₂ = nodes₁.set o { nodes₁.at_ o with
          bigHint := if (nodes₁.at_ o).bigHint < (nodes₁.at_ (o + 1 + j * width k)).bigHint
            then (nodes₁.at_ (o + 1 + j * width k)).bigHint else (nodes₁.at_ o).bigHint } :=
        ⟨_, rfl⟩
      rw [← hnodes₂]
      have hframe₂ : Frame nodes nodes₂ o (width (k + 1)) := by
        rw [hnodes₂]
        exact (hframe.mono (by omega) hin).trans (Frame.set.mono le_rfl (by omega))
      have hhead : (nodes₂.at_ o).available = (nodes.at_ o).available ∧
          Hinted (nodes₂.at_ o).bigHint (freed free a v) (k + 1) base := by
        rw [hnodes₂, Nodes.set_self, ← hsame]
        exact ⟨rfl, hhint₁⟩
      have hchildren₂ : Children (Tree nodes₂ (freed free a v) slots k) nodes₂ slots k o base := by
        rw [hnodes₂]
        exact hchildren₁.congr_head Frame.set
      have hi : j * width k + 1 + width k = (j + 1) * width k + 1 := by
        rw [Nat.succ_mul]
        omega
      have hindex : base + j * span k + span k = base + (j + 1) * span k := by
        rw [Nat.succ_mul]
        omega
      rw [hi, hindex]
      have hrest := @ih (freed free a v) nodes₂ (a + v) (c - v) (j + 1) (by omega) (by omega)
        (by rw [hframe₂.size]; exact ho) hhead.2 hchildren₂ (by omega) (by omega)
        (fun i hi => by
          rw [freed_of_notMem (by omega), Nat.add_assoc]
          exact hused (v + i) (by omega))
        (by rw [← hindex]; omega)
      obtain ⟨nodes', hloop, hframe', havailable, hhint', hchildren'⟩ := hrest
      rw [freed_freed hvc] at hhint' hchildren'
      exact ⟨nodes', hloop, hframe₂.trans hframe', havailable.trans hhead.1, hhint', hchildren'⟩

lemma radixNodeDealloc_deallocates {fuel : ℕ} (hfuel : k < fuel) (hk : k < 6) :
    Deallocates slots (k + 1) fun nodes node slotIndex count index =>
      radixNodeDealloc fuel nodes node slotIndex count (span (k + 1)) (16 * width k) index := by
  induction fuel generalizing k with
  | zero => omega
  | succ fuel ih =>
    have hradix : span (k + 1) / nodeRadix = span k := by
      rw [span_succ]
      exact Nat.mul_div_cancel_left _ (by decide)
    have hskip : 16 * width k / nodeRadix = width k := Nat.mul_div_cancel_left _ (by decide)
    have hchild : Deallocates slots k fun nodes child slotIndex v index =>
        if width k = 1 then radixLeafDealloc nodes child slotIndex v
        else radixNodeDealloc fuel nodes child slotIndex v (span k) (width k - 1) index := by
      cases k with
      | zero => exact radixLeafDealloc_deallocates
      | succ k =>
        have hpos := width_pos k
        have hne : ¬width (k + 1) = 1 := by
          rw [width]
          omega
        simp only [if_neg hne]
        exact @ih k (by omega) (by omega)
    intro free nodes o a c base htree halign hc hlow hhigh hslots hused
    obtain ⟨ho, hhint, havailable, hchildren⟩ := htree
    have hcount := freeBelow_freed hlow hhigh hused
    have hle : freeBelow (freed free a c) (k + 1) base ≤ 2 ^ 29 := freeBelow_le.trans (span_le hk)
    have hnew : int32 ((nodes.at_ o).available + c) = freeBelow (freed free a c) (k + 1) base := by
      rw [havailable, int32_of_lt (by omega) (by omega)]
      omega
    -- the child that the range starts in
    have hpos := span_pos k
    have hdiv : (a - base) / span k * span k ≤ a - base ∧
        a - base < (a - base) / span k * span k + span k := by
      have := Nat.div_add_mod' (a - base) (span k)
      have := Nat.mod_lt (a - base) hpos
      omega
    have hfirst : (a - base) / span k < 16 := by
      rw [Nat.div_lt_iff_lt_mul hpos, ← span_succ]
      omega
    obtain ⟨nodes₁, hnodes₁⟩ : ∃ nodes₁, nodes₁ = nodes.set o { nodes.at_ o with
        available := freeBelow (freed free a c) (k + 1) base } := ⟨_, rfl⟩
    have hframe₁ : Frame nodes nodes₁ o 1 := by
      rw [hnodes₁]
      exact Frame.set
    have hhead : (nodes₁.at_ o).available = freeBelow (freed free a c) (k + 1) base ∧
        Hinted (nodes₁.at_ o).bigHint free (k + 1) base := by
      rw [hnodes₁, Nodes.set_self]
      exact ⟨rfl, hhint⟩
    have hloop := @deallocLoop_spec free nodes₁ slots a c k o base _ 17 ((a - base) / span k)
      hchild halign (Nat.le_add_right 17 _) hfirst.le (by rw [hframe₁.size]; exact ho) hhead.2
      (hchildren.congr_head hframe₁) hhigh hslots hused (by omega)
    obtain ⟨nodes', heq, hframe', havailable', hhint', hchildren'⟩ := hloop
    have heq' : deallocLoop (fun nodes child slotIndex v index =>
        if width k = 1 then radixLeafDealloc nodes child slotIndex v
        else radixNodeDealloc fuel nodes child slotIndex v (span k) (width k - 1) index) o (span k)
        (16 * width k) (width k) (nodeRadix + 1) nodes₁ ((a - base) / span k * width k + 1)
        (base + (a - base) / span k * span k) a c = some nodes' := heq
    have hframe : Frame nodes nodes' o (width (k + 1)) :=
      (hframe₁.mono le_rfl (by have := width_pos (k + 1); omega)).trans hframe'
    refine ⟨nodes', ?_, hframe, ?_, hhint', havailable'.trans hhead.1, hchildren'⟩
    · simp only [radixNodeDealloc, Nodes.read_of_lt ho, Nodes.write_of_lt ho, Option.bind_some,
        hradix, hskip, hnew, ← hnodes₁, heq']
    · rw [hframe.size]
      exact ho

end Haiku.Radix
