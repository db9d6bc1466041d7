import Haiku.AddressSpace.ClosestTheorems

/-!
# The balance of an AVL tree

The balance factors are the differences of the heights after every insertion and removal, and at most
one apart from zero. What is done on one side of a tree is what is done on the other side of the tree
seen from behind.
-/

namespace Haiku.AddressSpace.Tree

def height : Tree → ℕ
  | nil => 0
  | node left _ _ right => max left.height right.height + 1

/-- Every balance factor is the difference of the heights, and at most one. -/
def Balanced : Tree → Prop
  | nil => True
  | node left _ balanceFactor right => left.Balanced ∧ right.Balanced ∧
      balanceFactor = right.height - left.height ∧ -1 ≤ balanceFactor ∧ balanceFactor ≤ 1

/-- Both subtrees are balanced, and the balance factor is right. -/
def Weighed : Tree → Prop
  | nil => True
  | node left _ balanceFactor right =>
    left.Balanced ∧ right.Balanced ∧ balanceFactor = right.height - left.height

attribute [simp] height Balanced Weighed

variable {left right : Tree} {value : ℕ} {t : Tree}

lemma rotated (h : (node left value (-2) right).Weighed) :
    ((node left value (-2) right).leftBalance = 1 ∧ (rotateLeftRight (node left value (-2) right)).Balanced ∧
      (rotateLeftRight (node left value (-2) right)).height = right.height + 2) ∨
    ((rotateRight (node left value (-2) right)).Balanced ∧
      ((node left value (-2) right).leftBalance = -1 ∧
          (rotateRight (node left value (-2) right)).height = right.height + 2 ∨
        (node left value (-2) right).leftBalance = 0 ∧
          (rotateRight (node left value (-2) right)).height = right.height + 3)) := by
  obtain ⟨hleft, hr, hw⟩ := h
  cases left with
  | nil =>
    simp only [height] at hw
    omega
  | node a x lb b =>
    obtain ⟨ha, hb, hlb, hge, hle⟩ := hleft
    simp only [height] at hw
    obtain rfl | rfl | rfl : lb = -1 ∨ lb = 0 ∨ lb = 1 := by omega
    · have hrot : rotateRight (node (node a x (-1) b) value (-2) right) =
        node a x 0 (node b value 0 right) := rfl
      rw [hrot]
      simp only [Balanced, height, ha, hb, hr, true_and, leftBalance, balance]
      omega
    · have hrot : rotateRight (node (node a x 0 b) value (-2) right) =
        node a x 1 (node b value (-1) right) := rfl
      rw [hrot]
      simp only [Balanced, height, ha, hb, hr, true_and, leftBalance, balance]
      omega
    · cases b with
      | nil =>
        simp only [height] at hlb
        omega
      | node b y yb c =>
        obtain ⟨hb, hc, hyb, hge, hle⟩ := hb
        simp only [height] at hw hlb
        have hrot : ∃ xb vb, rotateLeftRight (node (node a x 1 (node b y yb c)) value (-2) right) =
            node (node a x xb b) y 0 (node c value vb right) ∧ xb = b.height - a.height ∧
              vb = right.height - c.height := by
          obtain rfl | rfl | rfl : yb = -1 ∨ yb = 0 ∨ yb = 1 := by omega
          · exact ⟨0, 1, rfl, by omega, by omega⟩
          · exact ⟨0, 0, rfl, by omega, by omega⟩
          · exact ⟨-1, 0, rfl, by omega, by omega⟩
        obtain ⟨xb, vb, hrot, hxb, hvb⟩ := hrot
        rw [hrot]
        simp only [Balanced, height, ha, hb, hc, hr, true_and, leftBalance, balance]
        omega

/-! ## From right to left -/

def mirror : Tree → Tree
  | nil => nil
  | node left value balanceFactor right => node right.mirror value (-balanceFactor) left.mirror

@[simp]
lemma mirror_mirror (t : Tree) : t.mirror.mirror = t := by
  induction t with
  | nil => rfl
  | node left value balanceFactor right ihl ihr => simp only [mirror, ihl, ihr, neg_neg]

@[simp]
lemma height_mirror (t : Tree) : t.mirror.height = t.height := by
  induction t with
  | nil => rfl
  | node left value balanceFactor right ihl ihr => rw [mirror, height, height, ihl, ihr, max_comm]

@[simp]
lemma balanced_mirror (t : Tree) : t.mirror.Balanced ↔ t.Balanced := by
  induction t with
  | nil => rfl
  | node left value balanceFactor right ihl ihr =>
    simp only [mirror, Balanced, ihl, ihr, height_mirror]
    constructor
    · rintro ⟨hr, hl, h, hge, hle⟩
      exact ⟨hl, hr, by omega, by omega, by omega⟩
    · rintro ⟨hl, hr, h, hge, hle⟩
      exact ⟨hr, hl, by omega, by omega, by omega⟩

lemma balance_mirror (t : Tree) : t.mirror.balance = -t.balance := by
  cases t <;> rfl

lemma leftBalance_mirror (t : Tree) : t.mirror.leftBalance = -t.rightBalance := by
  cases t with
  | nil => rfl
  | node => exact balance_mirror _

lemma rotateLeft_eq (t : Tree) : t.rotateLeft = t.mirror.rotateRight.mirror := by
  rcases t with _ | ⟨left, value, balanceFactor, _ | ⟨b, right, rightBalance, c⟩⟩
  · rfl
  · simp [mirror, rotateLeft, rotateRight]
  · simp only [mirror, rotateLeft, rotateRight, mirror_mirror, node.injEq, true_and, and_true]
    grind

lemma rotateRightLeft_eq (t : Tree) : t.rotateRightLeft = t.mirror.rotateLeftRight.mirror := by
  cases t with
  | nil => rfl
  | node left value balanceFactor right =>
    simp only [rotateRightLeft, mirror, rotateLeftRight, rotateLeft_eq, mirror_mirror]

lemma balanceInsertRight_eq (t : Tree) : t.balanceInsertRight =
    (t.mirror.balanceInsertLeft.1.mirror, t.mirror.balanceInsertLeft.2) := by
  unfold balanceInsertRight balanceInsertLeft
  rw [balance_mirror, leftBalance_mirror, rotateLeft_eq, rotateRightLeft_eq]
  split_ifs <;> first | omega | simp

lemma balanceRemoveLeft_eq (t : Tree) : t.balanceRemoveLeft =
    (t.mirror.balanceRemoveRight.1.mirror, t.mirror.balanceRemoveRight.2) := by
  unfold balanceRemoveLeft balanceRemoveRight
  rw [balance_mirror, leftBalance_mirror, rotateLeft_eq, rotateRightLeft_eq]
  split_ifs <;> first | omega | simp [neg_eq_iff_eq_neg]

/-! ## Balancing -/

lemma balanceInsertLeft_spec {n : ℕ} {balanceFactor : ℤ}
    (h : (node left value balanceFactor right).Weighed) (hn : left.height = n + 1)
    (hge : -2 ≤ balanceFactor) (hle : balanceFactor ≤ 0)
    (hne : balanceFactor = -2 → left.balance ≠ 0) :
    let r := balanceInsertLeft (node left value balanceFactor right)
    r.1.Balanced ∧ r.1.height = max n right.height + 1 + r.2.toNat ∧
      (r.2 = true → r.1.balance ≠ 0) := by
  have hw := h.2.2
  unfold balanceInsertLeft
  by_cases hlow : (node left value balanceFactor right).balance < -1
  · obtain rfl : balanceFactor = -2 := le_antisymm (Int.le_sub_one_of_lt hlow) hge
    simp only [hlow, if_true]
    rcases rotated h with ⟨hone, hb, hheight⟩ | ⟨hb, ⟨hone, hheight⟩ | ⟨hzero, -⟩⟩
    · rw [if_neg (by omega), hheight]
      exact ⟨hb, by simp only [Bool.toNat_false]; omega, nofun⟩
    · rw [if_pos hone, hheight]
      exact ⟨hb, by simp only [Bool.toNat_false]; omega, nofun⟩
    · exact absurd hzero (hne rfl)
  · simp only [hlow, if_false]
    simp only [balance] at hlow
    refine ⟨⟨h.1, h.2.1, hw, by omega, by omega⟩, ?_, of_decide_eq_true⟩
    have hzero : balanceFactor = 0 ∨ balanceFactor = -1 := by omega
    rcases hzero with rfl | rfl <;> simp only [height, balance] <;> simp <;> omega

lemma balanceRemoveRight_spec {balanceFactor : ℤ}
    (h : (node left value balanceFactor right).Weighed)
    (hge : -2 ≤ balanceFactor) (hle : balanceFactor ≤ 0) :
    let r := balanceRemoveRight (node left value balanceFactor right)
    r.1.Balanced ∧ r.1.height + r.2.toNat = max left.height (right.height + 1) + 1 := by
  have hw := h.2.2
  unfold balanceRemoveRight
  by_cases hlow : (node left value balanceFactor right).balance < -1
  · obtain rfl : balanceFactor = -2 := le_antisymm (Int.le_sub_one_of_lt hlow) hge
    simp only [hlow, if_true]
    rcases rotated h with ⟨hone, hb, hheight⟩ | ⟨hb, ⟨hone, hheight⟩ | ⟨hzero, hheight⟩⟩
    · rw [if_neg (by omega), if_neg (by omega), hheight]
      exact ⟨hb, by simp only [Bool.toNat_true]; omega⟩
    · rw [if_pos hone, hheight]
      exact ⟨hb, by simp only [Bool.toNat_true]; omega⟩
    · rw [if_neg (by omega), if_pos hzero, hheight]
      exact ⟨hb, by simp only [Bool.toNat_false]; omega⟩
  · simp only [hlow, if_false]
    simp only [balance] at hlow
    refine ⟨⟨h.1, h.2.1, hw, by omega, by omega⟩, ?_⟩
    have hzero : balanceFactor = 0 ∨ balanceFactor = -1 := by omega
    rcases hzero with rfl | rfl <;> simp only [height, balance] <;> simp <;> omega

/-! ## Insertion and removal -/

/-- What insertion makes of `t`, with the flag that tells whether the height has changed. A tree that
has grown leans to a side. -/
def Grown (t : Tree) (r : Tree × Bool) : Prop :=
  r.1.Balanced ∧ r.1.height = t.height + r.2.toNat ∧ (r.2 = true → r.1.balance = 0 → t = nil)

lemma Balanced.growLeft {balanceFactor : ℤ} {r : Tree × Bool}
    (h : (node left value balanceFactor right).Balanced) (hl : Grown left r) :
    Grown (node left value balanceFactor right)
      (if r.2 then balanceInsertLeft (node r.1 value (balanceFactor - 1) right)
        else (node r.1 value balanceFactor right, false)) := by
  obtain ⟨-, hr, hw, hge, hle⟩ := h
  obtain ⟨t, changed⟩ := r
  obtain ⟨hb, heq, hlean⟩ := hl
  cases changed with
  | false =>
    have heq : t.height = left.height := heq
    exact ⟨⟨hb, hr, by rw [heq]; exact hw, hge, hle⟩, by simp [heq], nofun⟩
  | true =>
    have heq : t.height = left.height + 1 := heq
    have hne : balanceFactor - 1 = -2 → t.balance ≠ 0 := by
      intro hlow hzero
      rw [hlean rfl hzero, height] at hw
      omega
    have hw' : (node t value (balanceFactor - 1) right).Weighed := ⟨hb, hr, by omega⟩
    obtain ⟨hb', heq', hlean'⟩ := balanceInsertLeft_spec hw' heq (by omega) (by omega) hne
    exact ⟨hb', heq', fun hr hzero => absurd hzero (hlean' hr)⟩

lemma Grown.mirror {r : Tree × Bool} (h : Grown t r) : Grown t.mirror (r.1.mirror, r.2) := by
  obtain ⟨hb, heq, hlean⟩ := h
  refine ⟨(balanced_mirror _).2 hb, ?_, fun hr hzero => ?_⟩
  · rw [height_mirror, height_mirror]
    exact heq
  · rw [balance_mirror, neg_eq_zero] at hzero
    rw [hlean hr hzero, Tree.mirror]

lemma Balanced.growRight {balanceFactor : ℤ} {r : Tree × Bool}
    (h : (node left value balanceFactor right).Balanced) (hr : Grown right r) :
    Grown (node left value balanceFactor right)
      (if r.2 then balanceInsertRight (node left value (balanceFactor + 1) r.1)
        else (node left value balanceFactor r.1, false)) := by
  have hleft : Grown (node left value balanceFactor right).mirror.mirror _ :=
    (((balanced_mirror _).2 h).growLeft hr.mirror).mirror
  rw [mirror_mirror] at hleft
  convert hleft using 1
  split_ifs
  · rw [balanceInsertRight_eq, Tree.mirror, neg_add']
  · simp only [Tree.mirror, mirror_mirror, neg_neg]

lemma insert_grown {κ : Type} [LinearOrder κ] {key : ℕ → κ} {x : ℕ} {r : Tree × Bool}
    (h : t.Balanced) (hins : insert key x t = some r) : Grown t r := by
  induction t generalizing r with
  | nil =>
    cases hins
    exact ⟨⟨trivial, trivial, rfl, by decide⟩, rfl, fun _ _ => rfl⟩
  | node left value balanceFactor right ihl ihr =>
    rw [insert] at hins
    split_ifs at hins with heq hlt
    · obtain ⟨r', hleft, rfl⟩ := Option.map_eq_some_iff.1 hins
      exact h.growLeft (ihl h.1 hleft)
    · obtain ⟨r', hright, rfl⟩ := Option.map_eq_some_iff.1 hins
      exact h.growRight (ihr h.2.1 hright)

/-- What removal makes of `t`, with the flag that tells whether the height has changed. -/
def Removed (t : Tree) (r : Tree × Bool) : Prop :=
  r.1.Balanced ∧ r.1.height + r.2.toNat = t.height

lemma Balanced.onRight {balanceFactor : ℤ} {r : Tree × Bool}
    (h : (node left value balanceFactor right).Balanced) (hr : Removed right r) :
    Removed (node left value balanceFactor right)
      (if r.2 then balanceRemoveRight (node left value (balanceFactor - 1) r.1)
        else (node left value balanceFactor r.1, false)) := by
  obtain ⟨hl, -, hw, hge, hle⟩ := h
  obtain ⟨t, changed⟩ := r
  obtain ⟨hb, heq⟩ := hr
  cases changed with
  | false =>
    have heq : t.height = right.height := heq
    refine ⟨⟨hl, hb, ?_, hge, hle⟩, ?_⟩
    · rw [heq]
      exact hw
    · show max left.height t.height + 1 = _
      rw [heq]
      rfl
  | true =>
    have heq : t.height + 1 = right.height := heq
    have hw' : (node left value (balanceFactor - 1) t).Weighed := ⟨hl, hb, by omega⟩
    obtain ⟨hb', heq'⟩ := balanceRemoveRight_spec hw' (by omega) (by omega)
    refine ⟨hb', heq'.trans ?_⟩
    rw [heq]
    rfl

lemma Removed.mirror {r : Tree × Bool} (h : Removed t r) : Removed t.mirror (r.1.mirror, r.2) := by
  unfold Removed at h ⊢
  rw [balanced_mirror, height_mirror, height_mirror]
  exact h

lemma Balanced.onLeft {balanceFactor : ℤ} {r : Tree × Bool}
    (h : (node left value balanceFactor right).Balanced) (hl : Removed left r) :
    Removed (node left value balanceFactor right)
      (if r.2 then balanceRemoveLeft (node r.1 value (balanceFactor + 1) right)
        else (node r.1 value balanceFactor right, false)) := by
  have hright : Removed (node left value balanceFactor right).mirror.mirror _ :=
    (((balanced_mirror _).2 h).onRight hl.mirror).mirror
  rw [mirror_mirror] at hright
  convert hright using 1
  split_ifs
  · rw [balanceRemoveLeft_eq, Tree.mirror, neg_add']
  · simp only [Tree.mirror, mirror_mirror, neg_neg]

lemma removeRightMost_balanced : ∀ {left : Tree} {value : ℕ} {balanceFactor : ℤ},
    (node left value balanceFactor right).Balanced →
    let r := removeRightMost left value balanceFactor right
    Removed (node left value balanceFactor right) (r.1, r.2.2) := by
  induction right with
  | nil =>
    rintro left value balanceFactor ⟨hl, -, -⟩
    exact ⟨hl, by simp [removeRightMost]⟩
  | node rightLeft rightValue rightBalance rightRight _ ihr =>
    intro left value balanceFactor h
    have hright := h.onRight (ihr h.2.1)
    simp only [removeRightMost]
    split_ifs at hright ⊢ <;> exact hright

lemma removeRoot_balanced {balanceFactor : ℤ}
    (h : (node left value balanceFactor right).Balanced) :
    Removed (node left value balanceFactor right) (removeRoot left balanceFactor right) := by
  have hself := h
  obtain ⟨hl, hr, hw, hge, hle⟩ := h
  unfold removeRoot
  split
  next a x lb b _ _ _ _ =>
    -- the value found takes the place of the one that is removed
    have hfound : (node (node a x lb b) (removeRightMost a x lb b).2.1 balanceFactor _).Balanced :=
      hself
    exact hfound.onLeft (removeRightMost_balanced hl)
  next a x lb b =>
    obtain ⟨ha, hb, hlb, -⟩ := hl
    simp only [height] at hw
    simp only [Removed, Balanced, height, ha, hb, true_and]
    exact ⟨⟨by omega, by omega, by omega⟩, by simp⟩
  next a x rb b =>
    obtain ⟨ha, hb, hrb, -⟩ := hr
    simp only [height] at hw
    simp only [Removed, Balanced, height, ha, hb, true_and]
    exact ⟨⟨by omega, by omega, by omega⟩, by simp⟩
  next => exact ⟨trivial, rfl⟩

lemma remove_balanced (h : t.Balanced) (x : ℕ) : Removed t (t.remove x) := by
  induction t with
  | nil => exact ⟨trivial, rfl⟩
  | node left value balanceFactor right ihl ihr =>
    rw [remove]
    split_ifs with hx hmem
    · exact removeRoot_balanced h
    · exact h.onLeft (ihl h.1)
    · exact h.onRight (ihr h.2.1)

/-! ## The height -/

lemma two_pow_height_le (h : t.Balanced) : 2 ^ t.height ≤ (t.inorder.length + 1) ^ 2 := by
  induction t with
  | nil => exact le_rfl
  | node left value balanceFactor right ihl ihr =>
    obtain ⟨hl, hr, hw, hge, hle⟩ := h
    have hleft := ihl hl
    have hright := ihr hr
    -- a subtree is lower by two at most, and half as wide as the tree
    have hfour : ∀ n m, n + 2 ≥ (node left value balanceFactor right).height →
        2 ^ n ≤ (m + 1) ^ 2 →
        2 ^ (node left value balanceFactor right).height ≤ (2 * (m + 1)) ^ 2 := by
      intro n m hn hm
      calc 2 ^ (node left value balanceFactor right).height ≤ 2 ^ (n + 2) :=
            Nat.pow_le_pow_right (by decide) hn
        _ = 4 * 2 ^ n := by rw [pow_add]; omega
        _ ≤ 4 * (m + 1) ^ 2 := Nat.mul_le_mul_left 4 hm
        _ = (2 * (m + 1)) ^ 2 := by rw [mul_pow]; rfl
    have hlength : (node left value balanceFactor right).inorder.length =
        left.inorder.length + right.inorder.length + 1 := by simp [Nat.add_assoc]
    rw [hlength]
    rcases Nat.le_total left.inorder.length right.inorder.length with hlt | hlt
    · refine (hfour _ _ ?_ hleft).trans (Nat.pow_le_pow_left (by omega) 2)
      simp only [height]
      omega
    · refine (hfour _ _ ?_ hright).trans (Nat.pow_le_pow_left (by omega) 2)
      simp only [height]
      omega

lemma exists_of_insert_none {κ : Type} [LinearOrder κ] {key : ℕ → κ} {x : ℕ}
    (h : insert key x t = none) : ∃ y ∈ t.inorder, key y = key x := by
  induction t with
  | nil => cases h
  | node left value balanceFactor right ihl ihr =>
    rw [insert] at h
    split_ifs at h with heq hlt
    · exact ⟨value, by simp, heq.symm⟩
    · obtain ⟨y, hy, hkey⟩ := ihl (Option.map_eq_none_iff.1 h)
      exact ⟨y, List.mem_append_left _ hy, hkey⟩
    · obtain ⟨y, hy, hkey⟩ := ihr (Option.map_eq_none_iff.1 h)
      exact ⟨y, List.mem_append_right _ (List.mem_cons_of_mem _ hy), hkey⟩

end Haiku.AddressSpace.Tree
