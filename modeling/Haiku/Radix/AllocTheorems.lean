import Haiku.Radix.Invariant

/-!
# Allocating slots

The search for a run of free slots goes down the tree; `Allocates` is what it does at each level.
The hint of a node is only an upper bound, so that a child that is skipped has no run, and a child
that is searched in vain has none either.
-/

namespace Haiku.Radix

def taken (free : ℕ → Bool) (a c : ℕ) : ℕ → Bool := fun x => free x && !(a ≤ x && x < a + c)

variable {free : ℕ → Bool} {nodes nodes' : Nodes} {slots a c k o base : ℕ}

lemma taken_of_notMem {x : ℕ} (h : x < a ∨ a + c ≤ x) : taken free a c x = free x := by
  have hout : (decide (a ≤ x) && decide (x < a + c)) = false := by
    rw [Bool.and_eq_false_iff, decide_eq_false_iff_not, decide_eq_false_iff_not]
    omega
  rw [taken, hout, Bool.not_false, Bool.and_true]

lemma taken_of_mem {x : ℕ} (h : a ≤ x) (h' : x < a + c) : taken free a c x = false := by
  simp [taken, h, h']

lemma taken_le {x : ℕ} (h : taken free a c x = true) : free x = true := by
  rw [taken, Bool.and_eq_true] at h
  exact h.1

lemma freeBelow_taken (hlow : base ≤ a) (hhigh : a + c ≤ base + span k)
    (hall : ∀ i < c, free (a + i) = true) :
    freeBelow (taken free a c) k base + c = freeBelow free k base := by
  -- the slots before, in and behind the range
  have hparts : span k = (a - base + c) + (base + span k - (a + c)) := by omega
  have hat : ∀ i, base + (a - base + i) = a + i := by
    intro i
    omega
  have hbehind : ∀ i, base + (a - base + c + i) = a + c + i := by
    intro i
    omega
  have hcount : ∀ f : ℕ → Bool, freeBelow f k base =
      Nat.count (fun i => f (base + i) = true) (a - base) +
        Nat.count (fun i => f (a + i) = true) c +
        Nat.count (fun i => f (a + c + i) = true) (base + span k - (a + c)) := by
    intro f
    rw [freeBelow, hparts, Nat.count_add, Nat.count_add]
    simp only [hat, hbehind]
    congr 2
    omega
  have hbefore : Nat.count (fun i => taken free a c (base + i) = true) (a - base) =
      Nat.count (fun i => free (base + i) = true) (a - base) := by
    apply count_congr
    intro i hi
    rw [taken_of_notMem (by omega)]
  have hrange : Nat.count (fun i => taken free a c (a + i) = true) c = 0 := by
    rw [Nat.count_eq_card_filter_range, Finset.card_eq_zero, Finset.filter_eq_empty_iff]
    intro i hi
    have hlt : i < c := Finset.mem_range.1 hi
    rw [taken_of_mem (by omega) (by omega)]
    exact Bool.false_ne_true
  have hfull : Nat.count (fun i => free (a + i) = true) c = c := Nat.count_iff_forall.2 hall
  have hafter : Nat.count (fun i => taken free a c (a + c + i) = true) (base + span k - (a + c)) =
      Nat.count (fun i => free (a + c + i) = true) (base + span k - (a + c)) := by
    apply count_congr
    intro i hi
    rw [taken_of_notMem (by omega)]
  rw [hcount, hcount, hbefore, hrange, hfull, hafter]
  omega

/-- What the search for `c` free slots does at a level. -/
def Allocates (free : ℕ → Bool) (slots c k : ℕ)
    (f : Nodes → ℕ → ℕ → Option (Nodes × Option ℕ)) : Prop :=
  ∀ nodes o base, base < slots → Tree nodes free slots k o base →
    ∃ nodes' r, f nodes o base = some (nodes', r) ∧ Frame nodes nodes' o (width k) ∧
      match r with
      | none => Tree nodes' free slots k o base ∧ ¬Runs free k base c
      | some a => base ≤ a ∧ a + c ≤ base + span k ∧ (∀ i < c, free (a + i) = true) ∧
          Tree nodes' (taken free a c) slots k o base

/-! ## The words of the bitmap -/

/-- The bits of `c` slots from the given one on. -/
def mask (c j : ℕ) : BitVec 32 := (BitVec.allOnes 32 >>> (32 - c)) <<< j

lemma getLsbD_mask {i j : ℕ} (h : j + c ≤ 32) :
    (mask c j).getLsbD i = decide (j ≤ i ∧ i < j + c) := by
  rw [mask, BitVec.getLsbD_shiftLeft, BitVec.getLsbD_ushiftRight, BitVec.getLsbD_allOnes]
  rw [Bool.eq_iff_iff]
  simp only [Bool.and_eq_true, Bool.not_eq_true', decide_eq_true_eq, decide_eq_false_iff_not]
  omega

lemma mask_succ (j : ℕ) : mask c j <<< 1 = mask c (j + 1) := by
  rw [mask, mask, BitVec.shiftLeft_add]

lemma and_mask_eq_iff {b : BitVec 32} {j : ℕ} (h : j + c ≤ 32) :
    b &&& mask c j = mask c j ↔ ∀ i < c, b.getLsbD (j + i) = true := by
  constructor
  · intro heq i hi
    have hbit : (b &&& mask c j).getLsbD (j + i) = (mask c j).getLsbD (j + i) := by rw [heq]
    have hmem : j ≤ j + i ∧ j + i < j + c := by omega
    rw [BitVec.getLsbD_and, getLsbD_mask h, decide_eq_true hmem, Bool.and_true] at hbit
    exact hbit
  · intro hall
    apply BitVec.eq_of_getLsbD_eq
    intro i _
    rw [BitVec.getLsbD_and, getLsbD_mask h]
    by_cases hmem : j ≤ i ∧ i < j + c
    · have hbit := hall (i - j) (by omega)
      rw [show j + (i - j) = i by omega] at hbit
      rw [hbit, Bool.true_and]
    · rw [decide_eq_false hmem, Bool.and_false]

lemma leafLoop_spec {b : BitVec 32} {left j : ℕ} (h : j + left + c = 33) :
    match leafLoop b left (mask c j) j with
    | some (i, m) => m = mask c i ∧ i + c ≤ 32 ∧ ∀ x < c, b.getLsbD (i + x) = true
    | none => ∀ i, j ≤ i → i + c ≤ 32 → ¬∀ x < c, b.getLsbD (i + x) = true := by
  induction left generalizing j with
  | zero =>
    intro i hi hi'
    omega
  | succ left ih =>
    rw [leafLoop]
    have hfit : j + c ≤ 32 := by omega
    by_cases hfound : b &&& mask c j = mask c j
    · rw [if_pos hfound]
      exact ⟨rfl, hfit, (and_mask_eq_iff hfit).1 hfound⟩
    · rw [if_neg hfound, mask_succ]
      have hrest := @ih (j + 1) (by omega)
      match hloop : leafLoop b left (mask c (j + 1)) (j + 1) with
      | some (i, m) =>
        rw [hloop] at hrest
        exact hrest
      | none =>
        rw [hloop] at hrest
        intro i hi hi'
        by_cases hij : i = j
        · subst hij
          exact fun hall => hfound ((and_mask_eq_iff hfit).2 hall)
        · exact hrest i (by omega) hi'

/-! ## Leaves -/

lemma Tree.take_leaf {j : ℕ} (h : Tree nodes free slots 0 o base) (hj : j + c ≤ 32) :
    Tree (nodes.set o { nodes.at_ o with bitmap := (nodes.at_ o).bitmap ||| mask c j })
      (taken free (base + j) c) slots 0 o base := by
  obtain ⟨ho, hhint, hbits⟩ := h
  refine ⟨ho, ?_, fun i hi => ?_⟩
  · rw [Nodes.set_self]
    exact hhint.of_le fun _ => taken_le
  · rw [Nodes.set_self, BitVec.getLsbD_or, hbits i hi, getLsbD_mask hj]
    by_cases hmem : j ≤ i ∧ i < j + c
    · rw [taken_of_mem (by omega) (by omega), decide_eq_true hmem, Bool.or_true, Bool.not_false]
    · rw [taken_of_notMem (by omega), decide_eq_false hmem, Bool.or_false]

lemma Tree.leafLoop_spec (h : Tree nodes free slots 0 o base) (hc : 1 ≤ c) :
    match (if (c : ℤ) ≤ bitmapRadix then
        leafLoop (~~~(nodes.at_ o).bitmap) (((bitmapRadix - (c : ℤ)) % 2 ^ 32).toNat + 1)
          (shiftRight (BitVec.allOnes 32) ((bitmapRadix - (c : ℤ)) % 2 ^ 32).toNat) 0
      else none) with
    | some (j, m) => m = mask c j ∧ j + c ≤ 32 ∧ ∀ i < c, free (base + j + i) = true
    | none => ¬Runs free 0 base c := by
  have hbit : ∀ i < 32, (~~~(nodes.at_ o).bitmap).getLsbD i = free (base + i) := by
    intro i hi
    rw [BitVec.getLsbD_not, h.2.2 i hi, decide_eq_true hi, Bool.true_and, Bool.not_not]
  by_cases hfit : (c : ℤ) ≤ bitmapRadix
  · have hle : c ≤ 32 := by simpa [bitmapRadix] using hfit
    have hn : ((bitmapRadix - (c : ℤ)) % 2 ^ 32).toNat = 32 - c := by
      rw [Int.emod_eq_of_lt (by omega) (by simp [bitmapRadix]; omega)]
      simp [bitmapRadix]
    have hmask : shiftRight (BitVec.allOnes 32) (32 - c) = mask c 0 := by
      rw [shiftRight, mask, BitVec.shiftLeft_zero, Nat.mod_eq_of_lt (by omega)]
    have hloop := @Radix.leafLoop_spec c (~~~(nodes.at_ o).bitmap) (32 - c + 1) 0 (by omega)
    rw [if_pos hfit, hn, hmask]
    match hfound : leafLoop (~~~(nodes.at_ o).bitmap) (32 - c + 1) (mask c 0) 0 with
    | some (j, m) =>
      rw [hfound] at hloop
      refine ⟨hloop.1, hloop.2.1, fun i hi => ?_⟩
      have hset := hloop.2.2 i hi
      have hlt : j + i < 32 := by
        have := hloop.2.1
        omega
      rw [hbit _ hlt, ← Nat.add_assoc] at hset
      exact hset
    | none =>
      rw [hfound] at hloop
      intro hruns
      obtain ⟨j, hj, hrun⟩ := hruns
      apply hloop j (Nat.zero_le j) hj
      intro i hi
      rw [hbit _ (by omega), ← Nat.add_assoc]
      exact hrun i hi
  · rw [if_neg hfit]
    intro hruns
    obtain ⟨j, hj, _⟩ := hruns
    apply hfit
    simp [bitmapRadix]
    omega

lemma radixLeafAlloc_allocates (hc : 1 ≤ c) :
    Allocates free slots c 0 fun nodes leaf slotIndex => radixLeafAlloc nodes leaf slotIndex c := by
  intro nodes o base _ htree
  have ho : o < nodes.size := htree.1
  have hloop := htree.leafLoop_spec hc
  simp only [radixLeafAlloc, Nodes.read_of_lt ho, Option.bind_some]
  split
  · -- a run of free slots has been found
    rename_i j m hfound
    rw [hfound] at hloop
    obtain ⟨hm, hj, hfree⟩ := hloop
    rw [Nodes.write_of_lt ho, Option.map_some]
    refine ⟨_, some (base + j), rfl, Frame.set, ?_⟩
    subst hm
    refine ⟨by omega, ?_, hfree, htree.take_leaf hj⟩
    show base + j + c ≤ base + 32
    omega
  · -- the leaf has no such run
    rename_i hfound
    rw [hfound] at hloop
    rw [Nodes.write_of_lt ho, Option.map_some]
    refine ⟨_, none, rfl, Frame.set, ⟨ho, ?_, ?_⟩, hloop⟩
    · rw [Nodes.set_self]
      exact htree.2.1.lower hc hloop
    · rw [Nodes.set_self]
      exact htree.2.2

/-! ## Inner nodes -/

/-- The result of the search among the children of a node. -/
def Searched (free : ℕ → Bool) (slots c k o base : ℕ) (nodes' : Nodes) : Option ℕ → Prop
  | none => Children (Tree nodes' free slots k) nodes' slots k o base ∧
      ∀ j < 16, ¬Runs free k (base + j * span k) c
  | some a => base ≤ a ∧ a + c ≤ base + span (k + 1) ∧ (∀ i < c, free (a + i) = true) ∧
      Children (Tree nodes' (taken free a c) slots k) nodes' slots k o base

lemma not_runs_of_le (hfree : ∀ x, free x = true → x < slots) (hc : 1 ≤ c) (h : slots ≤ base) :
    ¬Runs free k base c := by
  intro hrun
  obtain ⟨x, hx, hx'⟩ := hrun.exists_free hc
  have := hfree x hx'
  omega

lemma allocLoop_spec {child : Nodes → ℕ → ℕ → Option (Nodes × Option ℕ)} {fuel j : ℕ}
    (hchild : Allocates free slots c k child) (hfree : ∀ x, free x = true → x < slots)
    (hc : 1 ≤ c) (hchildren : Children (Tree nodes free slots k) nodes slots k o base)
    (hfuel : fuel + j = 17) (hj : j ≤ 16) (hlast : base + j * span k < slots + span k)
    (hbefore : ∀ i < j, ¬Runs free k (base + i * span k) c) :
    ∃ nodes' r, allocLoop child o c (span k) (16 * width k) (width k) fuel nodes (1 + j * width k)
        (base + j * span k) = some (nodes', r) ∧
      Frame nodes nodes' (o + 1) (16 * width k) ∧ Searched free slots c k o base nodes' r := by
  induction fuel generalizing nodes j with
  | zero => omega
  | succ fuel ih =>
    have hpos := width_pos k
    rw [allocLoop]
    by_cases hmore : j < 16
    · have hin : j * width k + width k ≤ 16 * width k := by
        rw [← Nat.succ_mul]
        exact Nat.mul_le_mul_right _ hmore
      have hnode : o + (1 + j * width k) = o + 1 + j * width k := by omega
      have hi : 1 + j * width k + width k = 1 + (j + 1) * width k := by
        rw [Nat.succ_mul]
        omega
      have hslot : base + j * span k + span k = base + (j + 1) * span k := by
        rw [Nat.succ_mul]
        omega
      rw [if_pos (by omega), hnode]
      by_cases hslots : base + j * span k < slots
      · -- a child with slots: its hint says whether it is searched
        have htree := (hchildren j hmore).1 hslots
        obtain ⟨hlt, hhint⟩ := htree.hinted
        rw [Nodes.read_of_lt hlt, Option.bind_some, if_neg (by have := hhint.1; omega)]
        -- the rest of the loop, when this child has no run
        have hnext : ∀ nodes₁, Frame nodes nodes₁ (o + 1 + j * width k) (width k) →
            Tree nodes₁ free slots k (o + 1 + j * width k) (base + j * span k) →
            ¬Runs free k (base + j * span k) c →
            ∃ nodes' r, allocLoop child o c (span k) (16 * width k) (width k) fuel nodes₁
                (1 + j * width k + width k) (base + j * span k + span k) = some (nodes', r) ∧
              Frame nodes nodes' (o + 1) (16 * width k) ∧
              Searched free slots c k o base nodes' r := by
          intro nodes₁ hframe htree₁ hnone
          rw [hi, hslot]
          have hrest := @ih nodes₁ (j + 1)
            (hchildren.update hslots hframe htree₁ fun _ _ => rfl) (by omega) (by omega)
            (by omega) (by
              intro i hi
              by_cases hij : i = j
              · rw [hij]
                exact hnone
              · exact hbefore i (by omega))
          obtain ⟨nodes', r, heq, hframe', hsearched⟩ := hrest
          exact ⟨nodes', r, heq, (hframe.mono (by omega) (by omega)).trans hframe', hsearched⟩
        by_cases hlarge : (c : ℤ) ≤ (nodes.at_ (o + 1 + j * width k)).bigHint
        · rw [if_pos hlarge]
          obtain ⟨nodes₁, r, heq, hframe, hres⟩ := hchild _ _ _ hslots htree
          rw [heq, Option.bind_some]
          match r, hres with
          | none, hres => exact hnext nodes₁ hframe hres.1 hres.2
          | some a, hres =>
            obtain ⟨hlow, hhigh, hall, htaken⟩ := hres
            have hspan := @child_slots k base j hmore
            refine ⟨nodes₁, some a, rfl, hframe.mono (by omega) (by omega), by omega, by omega,
              hall, ?_⟩
            apply hchildren.update hslots hframe htaken
            intro x hx
            exact taken_of_notMem (by omega)
        · -- the hint is not too low: there is nothing to be found
          rw [if_neg hlarge]
          exact hnext nodes Frame.refl htree fun hrun => hlarge (hhint.2 c hrun)
      · -- the terminator
        obtain ⟨hlt, hterm⟩ := (hchildren j hmore).2 (by omega) hlast
        rw [Nodes.read_of_lt hlt, Option.bind_some, if_pos hterm]
        refine ⟨nodes, none, rfl, Frame.refl, hchildren, fun i hi => ?_⟩
        by_cases hij : i < j
        · exact hbefore i hij
        · have hle : j * span k ≤ i * span k := Nat.mul_le_mul_right _ (by omega)
          exact not_runs_of_le hfree hc (by omega)
    · have hend : j = 16 := by omega
      subst hend
      rw [if_neg (by omega)]
      exact ⟨nodes, none, rfl, Frame.refl, hchildren, hbefore⟩

lemma Tree.take_node {nodes₁ : Nodes} (h : Tree nodes free slots (k + 1) o base) (hk : k < 6)
    (hframe : Frame nodes nodes₁ (o + 1) (16 * width k))
    (hlow : base ≤ a) (hhigh : a + c ≤ base + span (k + 1)) (hall : ∀ i < c, free (a + i) = true)
    (hchildren : Children (Tree nodes₁ (taken free a c) slots k) nodes₁ slots k o base) :
    Tree (nodes₁.set o { nodes₁.at_ o with
        available := int32 ((nodes₁.at_ o).available - c)
        bigHint   := if (nodes₁.at_ o).bigHint > int32 ((nodes₁.at_ o).available - c) then
            int32 ((nodes₁.at_ o).available - c) else (nodes₁.at_ o).bigHint })
      (taken free a c) slots (k + 1) o base := by
  obtain ⟨ho, hhint, havailable, _⟩ := h
  have hsame : nodes₁.at_ o = nodes.at_ o := hframe.same o (by omega)
  have hcount := freeBelow_taken hlow hhigh hall
  have hle : freeBelow free (k + 1) base ≤ 2 ^ 29 := freeBelow_le.trans (span_le hk)
  have hleft : int32 ((nodes₁.at_ o).available - c) =
      freeBelow (taken free a c) (k + 1) base := by
    rw [hsame, havailable, int32_of_lt (by omega) (by omega)]
    omega
  rw [hleft]
  refine ⟨?_, ?_, ?_, hchildren.congr_head Frame.set⟩
  · rw [Nodes.size_set, hframe.size]
    exact ho
  · rw [Nodes.set_self, hsame]
    exact (hhint.of_le fun _ => taken_le).limit
  · rw [Nodes.set_self]

lemma Tree.miss_node {nodes₁ : Nodes} (h : Tree nodes free slots (k + 1) o base) (hc : 1 ≤ c)
    (hframe : Frame nodes nodes₁ (o + 1) (16 * width k))
    (hnone : ¬Runs free (k + 1) base c)
    (hchildren : Children (Tree nodes₁ free slots k) nodes₁ slots k o base) :
    Tree (nodes₁.set o { nodes₁.at_ o with
        bigHint := if (nodes₁.at_ o).bigHint ≥ c then (c : ℤ) - 1 else (nodes₁.at_ o).bigHint })
      free slots (k + 1) o base := by
  obtain ⟨ho, hhint, havailable, _⟩ := h
  have hsame : nodes₁.at_ o = nodes.at_ o := hframe.same o (by omega)
  refine ⟨?_, ?_, ?_, hchildren.congr_head Frame.set⟩
  · rw [Nodes.size_set, hframe.size]
    exact ho
  · rw [Nodes.set_self, hsame]
    exact hhint.lower hc hnone
  · rw [Nodes.set_self, hsame]
    exact havailable

lemma radixNodeAlloc_allocates (hfree : ∀ x, free x = true → x < slots) (hc : 1 ≤ c) {fuel : ℕ}
    (hfuel : k < fuel) (hk : k < 6) :
    Allocates free slots c (k + 1) fun nodes node slotIndex =>
      radixNodeAlloc fuel nodes node slotIndex c (span (k + 1)) (16 * width k) := by
  induction fuel generalizing k with
  | zero => omega
  | succ fuel ih =>
    have hradix : span (k + 1) / nodeRadix = span k := by
      rw [span_succ]
      exact Nat.mul_div_cancel_left _ (by decide)
    have hskip : 16 * width k / nodeRadix = width k := Nat.mul_div_cancel_left _ (by decide)
    -- the children are leaves or inner nodes
    have hchild : Allocates free slots c k fun nodes child slotIndex =>
        if width k = 1 then radixLeafAlloc nodes child slotIndex c
        else radixNodeAlloc fuel nodes child slotIndex c (span k) (width k - 1) := by
      cases k with
      | zero => exact radixLeafAlloc_allocates hc
      | succ k =>
        have hpos := width_pos k
        have hne : ¬width (k + 1) = 1 := by
          rw [width]
          omega
        simp only [if_neg hne]
        exact @ih k (by omega) (by omega)
    intro nodes o base hbase htree
    have hloop := @allocLoop_spec free nodes slots c k o base _ 17 0 hchild hfree hc htree.2.2.2
      (by omega) (by omega) (by omega) (fun i hi => by omega)
    rw [Nat.zero_mul, Nat.zero_mul, Nat.add_zero, Nat.add_zero] at hloop
    obtain ⟨nodes₁, r, heq, hframe, hsearched⟩ := hloop
    have ho : o < nodes₁.size := by
      rw [hframe.size]
      exact htree.1
    have hwidth : o + 1 + 16 * width k ≤ o + width (k + 1) := by
      rw [width]
      omega
    have hframe' : Frame nodes nodes₁ o (width (k + 1)) := hframe.mono (by omega) hwidth
    have hset : ∀ node, Frame nodes (nodes₁.set o node) o (width (k + 1)) := fun node =>
      hframe'.trans (Frame.set.mono le_rfl (by omega))
    have heq' : allocLoop (fun nodes child slotIndex =>
        if width k = 1 then radixLeafAlloc nodes child slotIndex c
        else radixNodeAlloc fuel nodes child slotIndex c (span k) (width k - 1)) o c (span k)
        (16 * width k) (width k) (nodeRadix + 1) nodes 1 base = some (nodes₁, r) := heq
    simp only [radixNodeAlloc, hradix, hskip, heq', Option.bind_some, Nodes.read_of_lt ho]
    cases r with
    | none =>
      have hnone : ¬Runs free (k + 1) base c := by
        intro hrun
        obtain ⟨j, hj, hrun⟩ := hrun
        exact hsearched.2 j hj hrun
      simp only [Nodes.write_of_lt ho, Option.map_some]
      exact ⟨_, none, rfl, hset _, htree.miss_node hc hframe hnone hsearched.1, hnone⟩
    | some a =>
      obtain ⟨hlow, hhigh, hall, hchildren⟩ := hsearched
      simp only [Nodes.write_of_lt ho, Option.map_some]
      exact ⟨_, some a, rfl, hset _, hlow, hhigh, hall,
        htree.take_node hk hframe hlow hhigh hall hchildren⟩

end Haiku.Radix
