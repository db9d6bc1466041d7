import Haiku.Radix.Invariant

/-!
# Creating a radix bitmap

`radix_bitmap_init()` runs twice, first without an array to find out how large it has to be. The two
runs compute the same indices, and the second one builds a tree in which all slots are free.
-/

namespace Haiku.Radix

variable {nodes nodes' : Nodes} {node : Option ℕ} {slots s k m o base : ℕ}

/-- The index `radix_bitmap_init()` returns for a node above the given number of slots. -/
def top : ℕ → ℕ → ℕ
  | 0, _ => 0
  | k + 1, s => 1 + (s + span k - 1) / span k * width k

def allFree (slots : ℕ) : ℕ → Bool := fun x => x < slots

lemma le_children (s k : ℕ) : s ≤ (s + span k - 1) / span k * span k := by
  have hpos := span_pos k
  have hdiv := Nat.div_add_mod' (s + span k - 1) (span k)
  have hmod := Nat.mod_lt (s + span k - 1) hpos
  omega

lemma children_lt (hs : 0 < s) : (s + span k - 1) / span k * span k < s + span k := by
  have hdiv := Nat.div_add_mod' (s + span k - 1) (span k)
  omega

lemma children_le (hs : s ≤ span (k + 1)) : (s + span k - 1) / span k ≤ 16 := by
  have hpos := span_pos k
  rw [Nat.div_le_iff_le_mul_add_pred hpos]
  rw [span_succ] at hs
  rw [Nat.mul_comm]
  omega

lemma top_le (hs : s ≤ span k) : top k s ≤ width k := by
  cases k with
  | zero => exact Nat.zero_le _
  | succ k =>
    have hle := Nat.mul_le_mul_right (width k) (children_le hs)
    rw [top, width]
    omega

lemma freeBelow_allFree : freeBelow (allFree slots) k base = min (span k) (slots - base) := by
  have hsplit : span k = min (span k) (slots - base) + (span k - (slots - base)) := by omega
  have hfull : Nat.count (fun j => allFree slots (base + j) = true) (min (span k) (slots - base)) =
      min (span k) (slots - base) := by
    rw [Nat.count_iff_forall]
    intro i hi
    have hlt : base + i < slots := by omega
    exact decide_eq_true hlt
  have hnone : Nat.count (fun j => allFree slots (base + (min (span k) (slots - base) + j)) = true)
      (span k - (slots - base)) = 0 := by
    rw [Nat.count_eq_card_filter_range, Finset.card_eq_zero, Finset.filter_eq_empty_iff]
    intro i hi hfree
    have hlt : i < span k - (slots - base) := Finset.mem_range.1 hi
    have hin : base + (min (span k) (slots - base) + i) < slots := of_decide_eq_true hfree
    omega
  calc freeBelow (allFree slots) k base
      = Nat.count (fun j => allFree slots (base + j) = true)
          (min (span k) (slots - base) + (span k - (slots - base))) := by rw [← hsplit, freeBelow]
    _ = min (span k) (slots - base) := by rw [Nat.count_add, hfull, hnone, Nat.add_zero]

lemma Hinted.allFree (hs : s = min (span k) (slots - base)) :
    Hinted s (allFree slots) k base := by
  refine ⟨Int.natCast_nonneg _, fun c hrun => ?_⟩
  have hle := hrun.le_freeBelow
  rw [freeBelow_allFree, ← hs] at hle
  exact Int.ofNat_le.2 hle

lemma setUp_spec {f : RadixNode → RadixNode} (h : ∀ o ∈ node, o < nodes.size) :
    ∃ nodes', setUp nodes node f = some nodes' ∧ (node = none → nodes' = nodes) ∧
      ∀ o ∈ node, nodes' = nodes.set o (f (nodes.at_ o)) := by
  match node with
  | none => exact ⟨nodes, rfl, fun _ => rfl, fun o ho => by cases ho⟩
  | some o =>
    have hlt := h o rfl
    refine ⟨nodes.set o (f (nodes.at_ o)), ?_, fun hne => (by cases hne), fun o' ho' => ?_⟩
    · rw [setUp, Nodes.read_of_lt hlt, Option.bind_some, Nodes.write_of_lt hlt]
    · rw [Option.some.inj ho']

/-- What `radix_bitmap_init()` does for a node of a level. -/
def Inits (slots k : ℕ) (f : Nodes → Option ℕ → ℕ → Option (ℕ × Nodes)) : Prop :=
  ∀ nodes node s, 0 < s → s ≤ span k → (∀ o ∈ node, o + top k s < nodes.size) →
    ∃ nodes', f nodes node s = some (top k s, nodes') ∧ (node = none → nodes' = nodes) ∧
      ∀ o ∈ node, Frame nodes nodes' o (width k) ∧
        ∀ base, s = min (span k) (slots - base) → Tree nodes' (allFree slots) slots k o base

/-- The children from `j` on have been set up. -/
def Built (nodes' : Nodes) (slots k j o base : ℕ) : Prop :=
  ∀ i, j ≤ i → i < 16 →
    (base + i * span k < slots →
      Tree nodes' (allFree slots) slots k (o + 1 + i * width k) (base + i * span k)) ∧
    (slots ≤ base + i * span k → base + i * span k < slots + span k →
      o + 1 + i * width k < nodes'.size ∧ (nodes'.at_ (o + 1 + i * width k)).bigHint = -1)

lemma slots_of_child {n c t : ℕ} (hs : s = min (16 * n) (slots - base)) (hc : c + n ≤ 16 * n)
    (ht : t = min n (s - c)) : t = min n (slots - (base + c)) := by
  omega

lemma child_lt {n c : ℕ} (hs : s = min (16 * n) (slots - base)) (hc : c < s) :
    base + c < slots := by
  omega

lemma initLoop_spec {child : Nodes → Option ℕ → ℕ → Option (ℕ × Nodes)} {fuel j index : ℕ}
    (hchild : Inits slots k child) (hfuel : 17 ≤ fuel + j) (hm : s ≤ m * span k)
    (hm' : m * span k < s + span k) (hmax : m ≤ 16) (hj : j ≤ m) (hindex : index ≤ 1 + j * width k)
    (hroom : ∀ o ∈ node, o + (1 + m * width k) < nodes.size) :
    ∃ nodes', initLoop child node (span k) (16 * width k) (width k) fuel nodes (1 + j * width k)
        index (s - j * span k) = some (1 + m * width k, nodes') ∧
      (node = none → nodes' = nodes) ∧
      ∀ o ∈ node, Frame nodes nodes' (o + 1 + j * width k) ((16 - j) * width k) ∧
        ∀ base, s = min (span (k + 1)) (slots - base) → Built nodes' slots k j o base := by
  induction fuel generalizing nodes j index with
  | zero => omega
  | succ fuel ih =>
    have hpos := width_pos k
    have hspan := span_pos k
    rw [initLoop]
    by_cases hmore : j < m
    · -- a child with slots
      have hin : j * width k + width k ≤ m * width k := by
        rw [← Nat.succ_mul]
        exact Nat.mul_le_mul_right _ hmore
      have hin' : m * width k ≤ 16 * width k := Nat.mul_le_mul_right _ hmax
      have hleft : j * span k < s := by
        have hle : j * span k + span k ≤ m * span k := by
          rw [← Nat.succ_mul]
          exact Nat.mul_le_mul_right _ hmore
        omega
      have hi : 1 + j * width k + width k = 1 + (j + 1) * width k := by
        rw [Nat.succ_mul]
        omega
      have hrest : s - j * span k - span k = s - (j + 1) * span k := by
        rw [Nat.succ_mul]
        omega
      obtain ⟨t, ht⟩ : ∃ t, t = min (span k) (s - j * span k) := ⟨_, rfl⟩
      have htop : top k t ≤ width k := top_le (by omega)
      have hroom' : ∀ o' ∈ node.map (· + (1 + j * width k)), o' + top k t < nodes.size := by
        intro o' ho'
        obtain ⟨o, ho, rfl⟩ := Option.mem_map.1 ho'
        have := hroom o ho
        omega
      obtain ⟨nodes₁, heq, hnone, hsome⟩ := hchild nodes (node.map (· + (1 + j * width k))) t
        (by omega) (by omega) hroom'
      have hsome' : ∀ o ∈ node, Frame nodes nodes₁ (o + 1 + j * width k) (width k) ∧
          ∀ base, t = min (span k) (slots - base) →
            Tree nodes₁ (allFree slots) slots k (o + 1 + j * width k) base := by
        intro o ho
        have hmem := hsome (o + (1 + j * width k)) (Option.mem_map_of_mem _ ho)
        rw [← Nat.add_assoc] at hmem
        exact hmem
      have hnext := @ih nodes₁ (j + 1) (1 + j * width k + top k t) (by omega) (by omega)
        (by rw [← hi]; omega) (by
          intro o ho
          rw [(hsome' o ho).1.size]
          exact hroom o ho)
      obtain ⟨nodes', heq', hnone', hbuilt'⟩ := hnext
      rw [if_pos (by omega)]
      have hbranch : (if s - j * span k ≥ span k then
            (child nodes (node.map (· + (1 + j * width k))) (span k)).bind fun r =>
              initLoop child node (span k) (16 * width k) (width k) fuel r.2
                (1 + j * width k + width k) (1 + j * width k + r.1) (s - j * span k - span k)
          else if s - j * span k > 0 then
            (child nodes (node.map (· + (1 + j * width k))) (s - j * span k)).bind fun r =>
              initLoop child node (span k) (16 * width k) (width k) fuel r.2
                (1 + j * width k + width k) (1 + j * width k + r.1) 0
          else
            (setUp nodes (node.map (· + (1 + j * width k))) fun x => { x with bigHint := -1 }).map
              fun nodes => (if index < 1 + j * width k then 1 + j * width k else index, nodes)) =
          some (1 + m * width k, nodes') := by
        by_cases hfull : s - j * span k ≥ span k
        · have heqt : child nodes (node.map (· + (1 + j * width k))) (span k) =
              some (top k t, nodes₁) := by
            rw [← heq]
            congr 1
            omega
          rw [if_pos hfull, hrest, hi, heqt, Option.bind_some]
          exact heq'
        · rw [if_neg hfull, if_pos (by omega), hi, show s - j * span k = t by omega, heq,
            Option.bind_some]
          have hzero : s - (j + 1) * span k = 0 := by omega
          rw [hzero] at heq'
          exact heq'
      refine ⟨nodes', hbranch, ?_, ?_⟩
      · intro hnil
        rw [hnone' hnil]
        exact hnone (by rw [hnil]; rfl)
      · intro o ho
        obtain ⟨hframe, htree⟩ := hsome' o ho
        obtain ⟨hframe', hbuilt⟩ := hbuilt' o ho
        have hwidth : (16 - j) * width k = (16 - (j + 1)) * width k + width k := by
          rw [← Nat.succ_mul]
          congr 1
          omega
        have hstart : o + 1 + (j + 1) * width k = o + 1 + j * width k + width k := by
          rw [Nat.succ_mul]
          omega
        refine ⟨(hframe.mono le_rfl (by omega)).trans (hframe'.mono (by omega) (by omega)), ?_⟩
        intro base hbase i hi hlt
        by_cases hij : j + 1 ≤ i
        · exact hbuilt base hbase i hij hlt
        · have heqi : i = j := by omega
          subst heqi
          have hend : i * span k + span k ≤ 16 * span k := by
            rw [← Nat.succ_mul]
            exact Nat.mul_le_mul_right _ hlt
          rw [span_succ] at hbase
          constructor
          · intro _
            apply (htree _ (slots_of_child hbase hend ht)).congr hframe'.size
            · intro x _ hx
              exact hframe'.same x (by omega)
            · exact fun _ _ _ => rfl
          · intro hout
            exact absurd (child_lt hbase hleft) (Nat.not_lt.2 hout)
    · have hend : j = m := by omega
      subst hend
      by_cases hlast : j < 16
      · -- the terminator behind the last child
        have hskip : j * width k + width k ≤ 16 * width k := by
          rw [← Nat.succ_mul]
          exact Nat.mul_le_mul_right _ hlast
        have hroom' : ∀ o' ∈ node.map (· + (1 + j * width k)), o' < nodes.size := by
          intro o' ho'
          obtain ⟨o, ho, rfl⟩ := Option.mem_map.1 ho'
          exact hroom o ho
        obtain ⟨nodes', heq, hnone, hsome⟩ :=
          @setUp_spec nodes _ (fun x => { x with bigHint := -1 }) hroom'
        rw [if_pos (by omega), if_neg (by omega), if_neg (by omega), heq, Option.map_some]
        refine ⟨nodes', ?_, fun hnil => hnone (by rw [hnil]; rfl), fun o ho => ?_⟩
        · congr 2
          split <;> omega
        · have hset := hsome (o + (1 + j * width k)) (Option.mem_map_of_mem _ ho)
          rw [← Nat.add_assoc] at hset
          have hlt : o + 1 + j * width k < nodes.size := by
            have := hroom o ho
            omega
          have hwidth : 1 ≤ (16 - j) * width k := Nat.mul_pos (by omega) hpos
          rw [hset]
          refine ⟨Frame.set.mono le_rfl (by omega), fun base hbase i hi hi' => ?_⟩
          have hle : j * span k ≤ i * span k := Nat.mul_le_mul_right _ hi
          have hnever : j * span k + span k ≤ 16 * span k := by
            rw [← Nat.succ_mul]
            exact Nat.mul_le_mul_right _ hlast
          rw [span_succ] at hbase
          refine ⟨fun hin => by omega, fun _ hfirst => ?_⟩
          have heqi : i = j := by
            by_contra hne
            have hge : j * span k + span k ≤ i * span k := by
              rw [← Nat.succ_mul]
              exact Nat.mul_le_mul_right _ (by omega)
            omega
          rw [heqi, Nodes.set_self]
          exact ⟨hlt, rfl⟩
      · -- all children have slots
        have hall : j = 16 := by omega
        subst hall
        rw [if_neg (by omega)]
        refine ⟨nodes, ?_, fun _ => rfl, fun o _ => ⟨Frame.refl, fun base _ i hi hi' => ?_⟩⟩
        · congr 2
          split <;> omega
        · omega

lemma Tree.init_leaf {node : RadixNode} (ho : o < nodes.size)
    (hs : s = min (span 0) (slots - base)) :
    Tree (nodes.set o { node with
        bigHint := s
        bitmap  := if s = bitmapRadix then 0 else BitVec.allOnes 32 <<< s })
      (allFree slots) slots 0 o base := by
  have hspan : span 0 = 32 := rfl
  refine ⟨ho, ?_, fun j hj => ?_⟩
  · rw [Nodes.set_self]
    exact Hinted.allFree hs
  · rw [Nodes.set_self]
    show (if s = 32 then (0 : BitVec 32) else BitVec.allOnes 32 <<< s).getLsbD j =
      !decide (base + j < slots)
    by_cases hfull : s = 32
    · rw [if_pos hfull, decide_eq_true (by omega), BitVec.ofNat_eq_ofNat, BitVec.getLsbD_zero,
        Bool.not_true]
    · rw [if_neg hfull, BitVec.getLsbD_shiftLeft, BitVec.getLsbD_allOnes, Bool.eq_iff_iff]
      simp only [Bool.and_eq_true, Bool.not_eq_true', decide_eq_true_eq, decide_eq_false_iff_not]
      omega

lemma radixBitmapInit_inits {fuel : ℕ} (hfuel : k < fuel) :
    Inits slots k fun nodes node s =>
      radixBitmapInit fuel nodes node (span k) (width k - 1) s := by
  induction fuel generalizing k with
  | zero => omega
  | succ fuel ih =>
    intro nodes node s hs hle hroom
    have hhint : (if span k < s then span k else s) = s := if_neg (by omega)
    cases k with
    | zero =>
      have hlt : ∀ o ∈ node, o < nodes.size := by
        intro o ho
        have := hroom o ho
        rw [top] at this
        omega
      obtain ⟨nodes', heq, hnone, hsome⟩ := @setUp_spec nodes node (fun x => { x with
        bigHint := s
        bitmap  := if s = bitmapRadix then 0 else BitVec.allOnes 32 <<< s }) hlt
      refine ⟨nodes', ?_, hnone, fun o ho => ?_⟩
      · simp only [radixBitmapInit, hhint]
        have hleaf : span 0 = bitmapRadix := rfl
        rw [if_pos hleaf, heq]
        rfl
      · rw [hsome o ho]
        exact ⟨Frame.set, fun base hbase => Tree.init_leaf (hlt o ho) hbase⟩
    | succ k =>
      have hpos := width_pos k
      have hwidth : width (k + 1) - 1 = 16 * width k := by
        rw [width]
        omega
      have hradix : span (k + 1) / nodeRadix = span k := by
        rw [span_succ]
        exact Nat.mul_div_cancel_left _ (by decide)
      have hskip : 16 * width k / nodeRadix = width k := Nat.mul_div_cancel_left _ (by decide)
      have hlt : ∀ o ∈ node, o < nodes.size := by
        intro o ho
        have := hroom o ho
        omega
      obtain ⟨nodes₁, heq, hnone, hsome⟩ := @setUp_spec nodes node
        (fun x => { x with bigHint := s, available := s }) hlt
      have hloop := @initLoop_spec nodes₁ node slots s k ((s + span k - 1) / span k) _ 17 0 0
        (@ih k (by omega)) (by omega) (le_children s k) (children_lt hs) (children_le hle)
        (Nat.zero_le _) (Nat.zero_le _) (by
          intro o ho
          rw [hsome o ho]
          exact hroom o ho)
      rw [Nat.zero_mul, Nat.zero_mul, Nat.add_zero, Nat.sub_zero] at hloop
      obtain ⟨nodes', heq', hnone', hbuilt⟩ := hloop
      have heq'' : initLoop (fun nodes node slots =>
          radixBitmapInit fuel nodes node (span k) (width k - 1) slots) node (span k) (16 * width k)
          (width k) (nodeRadix + 1) nodes₁ 1 0 s = some (top (k + 1) s, nodes') := heq'
      refine ⟨nodes', ?_, ?_, fun o ho => ?_⟩
      · simp only [radixBitmapInit, hhint]
        rw [if_neg (span_succ_ne k), hwidth, heq, Option.bind_some, hradix, hskip]
        exact heq''
      · intro hnil
        rw [hnone' hnil, hnone hnil]
      · obtain ⟨hframe, htree⟩ := hbuilt o ho
        have hframe₁ : Frame nodes nodes₁ o 1 := by
          rw [hsome o ho]
          exact Frame.set
        have hat : nodes'.at_ o = { nodes.at_ o with bigHint := s, available := s } := by
          rw [hframe.same o (by omega), hsome o ho, Nodes.set_self]
        have hall : Frame nodes nodes' o (width (k + 1)) := by
          rw [width]
          exact (hframe₁.mono le_rfl (by omega)).trans (hframe.mono (by omega) (by omega))
        refine ⟨hall, fun base hbase => ⟨?_, ?_, ?_, ?_⟩⟩
        · rw [hall.size]
          exact hlt o ho
        · rw [hat]
          exact Hinted.allFree hbase
        · rw [hat, freeBelow_allFree, ← hbase]
        · intro j hj
          exact htree base hbase j (Nat.zero_le j) hj

/-! ## The radix -/

lemma width_lt_span (k : ℕ) : width k < span k := by
  induction k with
  | zero => decide
  | succ k ih =>
    rw [width, span_succ]
    omega

lemma createLoop_spec {fuel : ℕ} (hslots : slots ≤ 2 ^ 29) (hk : k ≤ 6) (hfuel : 7 ≤ fuel + k) :
    ∃ l ≤ 6, slots ≤ span l ∧
      createLoop slots fuel (span k) (width k - 1) = some (span l, width l - 1) := by
  induction fuel generalizing k with
  | zero => omega
  | succ fuel ih =>
    rw [createLoop]
    by_cases hless : span k < slots
    · have hmore : k < 6 := by
        by_contra hge
        have heq : k = 6 := by omega
        rw [heq] at hless
        have hspan : span 6 = 2 ^ 29 := by decide
        omega
      have hle : span (k + 1) ≤ 2 ^ 29 := span_le hmore
      have hwidth := width_lt_span (k + 1)
      have hpos := width_pos k
      have hradix : span k * nodeRadix % 2 ^ 32 = span (k + 1) := by
        rw [span_succ] at hle ⊢
        show span k * 16 % 2 ^ 32 = 16 * span k
        omega
      have hskip : (width k - 1 + 1) * nodeRadix % 2 ^ 32 = width (k + 1) - 1 := by
        rw [width] at hwidth ⊢
        show (width k - 1 + 1) * 16 % 2 ^ 32 = 16 * width k + 1 - 1
        omega
      rw [if_pos hless, hradix, hskip]
      exact ih hmore (by omega)
    · rw [if_neg hless]
      exact ⟨k, hk, by omega, rfl⟩

end Haiku.Radix
