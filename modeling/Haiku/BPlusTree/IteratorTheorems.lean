import Haiku.BPlusTree.LevelTheorems

/-!
# Walking through a tree

`GetNextEntry()` from the beginning returns the pairs of all leaves. When
`GetPreviousEntry()` from the end returns them in the opposite order.
-/

namespace Haiku.BPlusTree

open Lib

variable {K : Type} [TreeKey K] {ord : KeyOrder K} {t : Tree K} {h : ℕ} {D : List ℕ}
  {L A B : List (Ref K)} {r : Ref K}

/-! ## The leaves -/

variable {s : ℕ → Slot K} {n : Node K}

omit [TreeKey K] in
lemma kids_concat {c : ℕ} (hn : s r.offset = .node n) (hc : n.overflowLink = .node c) :
    kids s (A ++ [r]) = (kids s A ++ refs n.entries) ++ [⟨r.fence, c⟩] := by
  rw [kids_append, kids_cons, kids_nil, List.append_nil, nodeAt_eq hn, children_index hc,
    List.append_assoc]

lemma kids_ne_nil (hl : IndexLevel ord s L) (hne : L ≠ []) : kids s L ≠ [] := by
  obtain ⟨A, r, rfl⟩ := (List.eq_nil_or_concat L).resolve_left hne
  rw [List.concat_eq_append] at hl ⊢
  obtain ⟨n, c, hn, hc, -⟩ := hl.nodes r (List.mem_append_right _ List.mem_cons_self)
  rw [kids_concat hn hc]
  exact List.append_ne_nil_of_right_ne_nil _ (List.cons_ne_nil _ _)

lemma length_leaves_le : ∀ {h : ℕ} {L : List (Ref K)}, Shape ord s h L →
    L ≠ [] → h + (leaves s h L).length ≤ (offsets s h L).length ∧ leaves s h L ≠ []
  | 0, L, _, hne => ⟨by rw [Nat.zero_add]; exact Nat.le_of_eq (List.length_map _).symm, hne⟩
  | h + 1, L, hshape, hne => by
    obtain ⟨hle, hleaves⟩ := length_leaves_le hshape.2 (kids_ne_nil hshape.1 hne)
    refine ⟨?_, hleaves⟩
    have hpos := List.length_pos_of_ne_nil hne
    rw [leaves, offsets, List.length_append, levelOffsets, List.length_map]
    omega

/-- What holds of a leaf in the middle of the others. -/
structure LeafAt (ord : KeyOrder K) (t : Tree K) (A : List (Ref K)) (r : Ref K)
    (B : List (Ref K)) : Prop where
  readable : t.setTo (.node r.offset) = some (nodeAt t.slots r.offset)
  isLeaf : (nodeAt t.slots r.offset).isLeaf = true
  ok : NodeOk ord (nodeAt t.slots r.offset)
  left : (nodeAt t.slots r.offset).leftLink = lastLink .node .null (levelOffsets A)
  right : (nodeAt t.slots r.offset).rightLink = headLink .node (levelOffsets B) .null

def Tree.leaves (t : Tree K) (h : ℕ) : List (Ref K) := BPlusTree.leaves t.slots h t.top

lemma TreeOk.isNodeOffset (hok : TreeOk ord t h D) {o : ℕ} (ho : o ∈ offsets t.slots h t.top) :
    t.isNodeOffset o = true :=
  hok.account.isNodeOffset (List.mem_append_left _ ho)

lemma TreeOk.leafAt (hok : TreeOk ord t h D) (hL : t.leaves h = A ++ r :: B) :
    LeafAt ord t A r B := by
  have hlevel : LeafLevel ord t.slots (t.leaves h) := hok.shape.leafLevel
  have hmem : r ∈ t.leaves h := by
    rw [hL]
    exact List.mem_append_right _ List.mem_cons_self
  have hin : ∀ o ∈ offsets t.slots 0 (t.leaves h), t.isNodeOffset o = true :=
    fun o ho => hok.isNodeOffset (levelOffsets_leaves_subset ho)
  obtain ⟨n, hn, hnode, hread⟩ := Shape.setTo (h := 0) hlevel hin hmem
  obtain ⟨m, hm, hleaf, -⟩ := hlevel.nodes r hmem
  obtain rfl : n = m := Slot.node.inj (hn.symm.trans hm)
  have hlinked := hlevel.linked
  rw [hL, LevelLinked, levelOffsets, List.map_append, List.map_cons] at hlinked
  obtain ⟨hleft, hright⟩ := hlinked.at_middle
  have hat := nodeAt_eq hn
  refine ⟨by rw [hat]; exact hread, ?_, by rw [hat]; exact hnode, hleft, hright⟩
  rw [hat, Node.isLeaf, hleaf]
  rfl

lemma TreeOk.numNodes_gt (hok : TreeOk ord t h D) :
    h + (t.leaves h).length < t.numNodes ∧ t.leaves h ≠ [] := by
  obtain ⟨hle, hne⟩ := length_leaves_le hok.shape (List.cons_ne_nil _ _)
  refine ⟨?_, hne⟩
  obtain ⟨F, -, hperm⟩ := hok.account.free
  have hlength := hperm.length_eq
  rw [allOffsets, List.length_map, List.length_range, List.length_append, List.length_append]
    at hlength
  have hpos := List.length_pos_of_ne_nil hne
  change h + (BPlusTree.leaves t.slots h t.top).length < t.maximumSize / nodeSize
  omega

namespace TreeIterator

variable {it : TreeIterator} {behind : ℕ → K × ℕ}

/-! ## `Goto()` -/

lemma gotoLoop_last (rounds : ℕ) : ∀ {h : ℕ} {A : List (Ref K)} {r : Ref K},
    Shape ord t.slots h (A ++ [r]) → (offsets t.slots h (A ++ [r])).Nodup →
    (∀ o ∈ offsets t.slots h (A ++ [r]), t.isNodeOffset o = true) → h < rounds →
    ∃ A' r', BPlusTree.leaves t.slots h (A ++ [r]) = A' ++ [r'] ∧
      gotoLoop t .backward rounds (.node r.offset) =
        some (some (r'.offset, nodeAt t.slots r'.offset)) := by
  induction rounds with
  | zero =>
    intro h A r _ _ _ hlt
    exact absurd hlt (Nat.not_lt_zero h)
  | succ rounds ih =>
    intro h A r hshape hnodup hin hlt
    have hmem : r ∈ A ++ [r] := List.mem_append_right _ List.mem_cons_self
    obtain ⟨n, hn, -, hread⟩ := hshape.setTo hin hmem
    rw [gotoLoop, hread]
    dsimp only
    cases h with
    | zero =>
      obtain ⟨m, hm, hleaf, -⟩ := LeafLevel.nodes hshape r hmem
      obtain rfl : n = m := Slot.node.inj (hn.symm.trans hm)
      refine ⟨A, r, rfl, ?_⟩
      rw [if_pos (by rw [Node.isLeaf, hleaf]; rfl), nodeAt_eq hn]
    | succ h =>
      obtain ⟨m, c, hm, hc, -⟩ := hshape.1.nodes r hmem
      obtain rfl : n = m := Slot.node.inj (hn.symm.trans hm)
      have hkids := kids_concat (A := A) hn hc
      have hbelow := hshape.2
      rw [hkids] at hbelow
      rw [offsets, hkids] at hnodup hin
      -- A node is not its own child.
      have hne : Link.node c ≠ .node r.offset := by
        intro heq
        have hsplit := (List.nodup_append.1 hnodup).2.2
        refine hsplit r.offset (mem_levelOffsets hmem) c ?_ (Link.node.inj heq).symm
        exact levelOffsets_subset_offsets _ _
          (mem_levelOffsets (List.mem_append_right _ List.mem_cons_self))
      have hbackward : ¬Direction.backward = .forward := by decide
      rw [if_neg (by rw [Node.isLeaf, hc]; simp), if_neg hbackward, hc, if_neg hne]
      obtain ⟨A', r', hleaves, hgoto⟩ := ih hbelow (List.nodup_append.1 hnodup).2.1
        (fun o ho => hin o (List.mem_append_right _ ho)) (Nat.lt_of_succ_lt_succ hlt)
      refine ⟨A', r', ?_, hgoto⟩
      rw [BPlusTree.leaves, hkids]
      exact hleaves

omit [TreeKey K] in
lemma kids_cons_head {c : ℕ} (hn : s r.offset = .node n) (hc : n.overflowLink = .node c) :
    ∃ r' B', kids s (r :: B) = r' :: B' ∧ n.linkAt 0 = .node r'.offset := by
  rw [kids_cons, nodeAt_eq hn, children_index hc, Node.linkAt]
  cases n.entries with
  | nil => exact ⟨⟨r.fence, c⟩, kids s B, rfl, hc⟩
  | cons e es => exact ⟨⟨some e.1, e.2⟩, _, rfl, rfl⟩

lemma gotoLoop_first (rounds : ℕ) : ∀ {h : ℕ} {B : List (Ref K)} {r : Ref K},
    Shape ord t.slots h (r :: B) → (offsets t.slots h (r :: B)).Nodup →
    (∀ o ∈ offsets t.slots h (r :: B), t.isNodeOffset o = true) → h < rounds →
    ∃ r' B', BPlusTree.leaves t.slots h (r :: B) = r' :: B' ∧
      gotoLoop t .forward rounds (.node r.offset) =
        some (some (r'.offset, nodeAt t.slots r'.offset)) := by
  induction rounds with
  | zero =>
    intro h B r _ _ _ hlt
    exact absurd hlt (Nat.not_lt_zero h)
  | succ rounds ih =>
    intro h B r hshape hnodup hin hlt
    have hmem : r ∈ r :: B := List.mem_cons_self
    obtain ⟨n, hn, -, hread⟩ := hshape.setTo hin hmem
    rw [gotoLoop, hread]
    dsimp only
    cases h with
    | zero =>
      obtain ⟨m, hm, hleaf, -⟩ := LeafLevel.nodes hshape r hmem
      obtain rfl : n = m := Slot.node.inj (hn.symm.trans hm)
      refine ⟨r, B, rfl, ?_⟩
      rw [if_pos (by rw [Node.isLeaf, hleaf]; rfl), nodeAt_eq hn]
    | succ h =>
      obtain ⟨m, c, hm, hc, -⟩ := hshape.1.nodes r hmem
      obtain rfl : n = m := Slot.node.inj (hn.symm.trans hm)
      obtain ⟨r₁, B₁, hkids, hlink⟩ := kids_cons_head (B := B) hn hc
      have hbelow := hshape.2
      rw [hkids] at hbelow
      rw [offsets, hkids] at hnodup hin
      have hne : Link.node r₁.offset ≠ .node r.offset := by
        intro heq
        have hsplit := (List.nodup_append.1 hnodup).2.2
        refine hsplit r.offset (mem_levelOffsets hmem) r₁.offset ?_ (Link.node.inj heq).symm
        exact levelOffsets_subset_offsets _ _ (mem_levelOffsets List.mem_cons_self)
      rw [if_neg (by rw [Node.isLeaf, hc]; simp), if_pos rfl, hlink, if_neg hne]
      obtain ⟨r', B', hleaves, hgoto⟩ := ih hbelow (List.nodup_append.1 hnodup).2.1
        (fun o ho => hin o (List.mem_append_right _ ho)) (Nat.lt_of_succ_lt_succ hlt)
      refine ⟨r', B', ?_, hgoto⟩
      rw [BPlusTree.leaves, hkids]
      exact hleaves

/-! ## The loop of `Traverse()` -/

lemma traverseLoop_forward (hok : TreeOk ord t h D) (rounds : ℕ) :
    ∀ (A : List (Ref K)) (r : Ref K) (B : List (Ref K)) (key : ℕ), t.leaves h = A ++ r :: B →
      B.length < rounds →
      ((nodeAt t.slots r.offset).entries.drop key ++ entriesOf t.slots B = [] →
        traverseLoop t .forward rounds r.offset key (nodeAt t.slots r.offset) = some .end) ∧
      (∀ e rest, (nodeAt t.slots r.offset).entries.drop key ++ entriesOf t.slots B = e :: rest →
        ∃ A' r' B' key', t.leaves h = A' ++ r' :: B' ∧
          traverseLoop t .forward rounds r.offset key (nodeAt t.slots r.offset) =
            some (.key r'.offset (key' : ℕ) (nodeAt t.slots r'.offset)) ∧
          (nodeAt t.slots r'.offset).entries[key']? = some e ∧
          rest = (nodeAt t.slots r'.offset).entries.drop (key' + 1) ++ entriesOf t.slots B') := by
  induction rounds with
  | zero =>
    intro A r B key _ hlt
    exact absurd hlt (Nat.not_lt_zero _)
  | succ rounds ih =>
    intro A r B key hL hlt
    have hleaf := hok.leafAt hL
    set n := nodeAt t.slots r.offset
    rw [traverseLoop]
    by_cases hin : key < n.entries.length
    · rw [if_neg (by simp [Node.numKeys, hin])]
      rw [List.drop_eq_getElem_cons hin, List.cons_append]
      refine ⟨fun hnil => absurd hnil (List.cons_ne_nil _ _), fun e rest hrest => ?_⟩
      rw [List.cons.injEq] at hrest
      refine ⟨A, r, B, key, hL, rfl, ?_, hrest.2.symm⟩
      rw [← hrest.1]
      exact List.getElem?_eq_getElem hin
    · -- The key is not in this node.
      rw [if_pos (.inl ⟨rfl, by simpa [Node.numKeys] using hin⟩), if_pos rfl, hleaf.right,
        List.drop_eq_nil_of_le (Nat.not_lt.1 hin), List.nil_append]
      cases B with
      | nil => exact ⟨fun _ => rfl, fun e rest hrest => by cases hrest⟩
      | cons r' B' =>
        have hL' : t.leaves h = (A ++ [r]) ++ r' :: B' := by
          rw [hL, List.append_assoc]
          rfl
        have hread := (hok.leafAt hL').readable
        have hnext := ih (A ++ [r]) r' B' 0 hL' (Nat.lt_of_succ_lt_succ hlt)
        show _ ∧ _
        simp only [levelOffsets_cons, headLink, hread, if_true]
        rw [List.drop_zero] at hnext
        exact hnext

lemma traverseLoop_backward (hok : TreeOk ord t h D) {rounds : ℕ} (hrounds : 2 ≤ rounds)
    (hL : t.leaves h = A ++ r :: B) (key : ℤ) :
    (0 ≤ key → traverseLoop t .backward rounds r.offset key (nodeAt t.slots r.offset) =
      some (.key r.offset key (nodeAt t.slots r.offset))) ∧
    (key < 0 → A = [] →
      traverseLoop t .backward rounds r.offset key (nodeAt t.slots r.offset) = some .end) ∧
    (∀ A' r', key < 0 → A = A' ++ [r'] →
      traverseLoop t .backward rounds r.offset key (nodeAt t.slots r.offset) =
        some (.key r'.offset (nodeAt t.slots r'.offset).numKeys (nodeAt t.slots r'.offset))) := by
  have hbackward : ¬Direction.backward = .forward := by decide
  have hstay : ∀ (rounds offset : ℕ) (key : ℤ) (n : Node K), 0 ≤ key →
      traverseLoop t .backward (rounds + 1) offset key n = some (.key offset key n) := by
    intro rounds offset key n hkey
    rw [traverseLoop, if_neg (by simp [hkey])]
  obtain ⟨rounds, rfl⟩ : ∃ rounds', rounds = rounds' + 1 + 1 := ⟨rounds - 2, by omega⟩
  refine ⟨fun hkey => hstay _ _ _ _ hkey, fun hkey hA => ?_, fun A' r' hkey hA => ?_⟩
  · rw [traverseLoop, if_pos (.inr ⟨rfl, hkey⟩), if_neg hbackward, (hok.leafAt hL).left, hA]
    rfl
  · have hL' : t.leaves h = A' ++ r' :: r :: B := by
      rw [hL, hA, List.append_assoc]
      rfl
    have hleft := (hok.leafAt hL).left
    rw [hA, levelOffsets_append, levelOffsets_cons, levelOffsets_nil, lastLink_concat] at hleft
    rw [traverseLoop, if_pos (.inr ⟨rfl, hkey⟩), if_neg hbackward, hleft]
    dsimp only
    rw [(hok.leafAt hL').readable]
    dsimp only
    rw [if_neg hbackward]
    exact hstay rounds _ _ _ (Int.natCast_nonneg _)

/-! ## One call -/

/-- The iterator refers to a leaf, and to a key of it. -/
structure Stands (t : Tree K) (h : ℕ) (A : List (Ref K)) (r : Ref K) (B : List (Ref K)) (key : ℤ)
    (it : TreeIterator) : Prop where
  level : t.leaves h = A ++ r :: B
  node : it.currentNodeOffset = .node r.offset
  key : it.currentKey = key

/-- No value of a leaf is a link to duplicates. -/
def NoDuplicates (t : Tree K) (h : ℕ) : Prop :=
  ∀ e ∈ entriesOf t.slots (t.leaves h),
    linkType e.2 ≠ duplicateNodeType ∧ linkType e.2 ≠ duplicateFragmentType

variable (behind) in
lemma traverse_eq (direction : Direction) {key : ℤ} (hok : TreeOk ord t h D)
    (hit : Stands t h A r B key it) (hnone : it.nextDuplicate t = none) :
    it.traverse t behind direction =
      (traverseLoop t direction t.numNodes r.offset
        (if direction = .forward then key + 1 else key - 1) (nodeAt t.slots r.offset)).map fun
        | .end => ⟨{ it with duplicateNode := none }, .entryNotFound, none⟩
        | .unreadable link key =>
          ⟨{ it with duplicateNode := none, currentNodeOffset := link, currentKey := key }, .error,
            none⟩
        | .key offset key n => { it with duplicateNode := none }.deliver t behind offset key n := by
  have hread := (hok.leafAt hit.level).readable
  unfold traverse
  rw [if_neg (by rw [hit.node]; simp)]
  show (if it.currentNodeOffset = .free then _ else _) = _
  rw [if_neg (by rw [hit.node]; simp), hnone]
  unfold nextKey
  dsimp only
  rw [hit.node]
  dsimp only
  rw [hread]
  exact hit.key ▸ rfl

lemma deliver_pair {e : K × ℕ} {key offset : ℕ} (hn : NodeOk ord n)
    (he : n.entries[key]? = some e) (hnode : linkType e.2 ≠ duplicateNodeType)
    (hfragment : linkType e.2 ≠ duplicateFragmentType) :
    it.deliver t behind offset key n =
      ⟨{ it with currentNodeOffset := .node offset, currentKey := key }, .ok,
        some ⟨some e.1, e.2⟩⟩ := by
  have hlt : key < n.numKeys := by
    obtain ⟨hlt, -⟩ := List.getElem?_eq_some_iff.1 he
    exact hlt
  have hpair : pairAt n (behind offset) key = some e := by
    unfold pairAt
    rw [he]
    exact if_pos (keyInBounds_of_ok hn hlt)
  unfold deliver
  dsimp only
  rw [if_neg (by omega), Int.toNat_natCast, hpair]
  dsimp only
  rw [if_neg (by simp [hnode, hfragment])]

variable (behind) in
lemma deliver_position (it : TreeIterator) (offset : ℕ) (key : ℤ) (n : Node K) :
    (it.deliver t behind offset key n).iterator.currentNodeOffset = .node offset ∧
      (it.deliver t behind offset key n).iterator.currentKey = key ∧
      (it.deliver t behind offset key n).status ≠ .entryNotFound := by
  unfold deliver
  dsimp only
  split
  · exact ⟨rfl, rfl, by simp⟩
  · split
    · exact ⟨rfl, rfl, by simp⟩
    · split
      · split
        · exact ⟨rfl, rfl, by simp⟩
        · split <;> exact ⟨rfl, rfl, by simp⟩
      · exact ⟨rfl, rfl, by simp⟩

omit [TreeKey K] in
lemma nextDuplicate_position {it' : TreeIterator} {value : ℕ}
    (hnext : it.nextDuplicate t = some (it', value)) :
    it'.currentNodeOffset = it.currentNodeOffset ∧ it'.currentKey = it.currentKey := by
  unfold nextDuplicate at hnext
  split at hnext
  · cases hnext
  · split at hnext
    · obtain ⟨values, -, heq⟩ := Option.map_eq_some_iff.1 hnext
      rw [Prod.mk.injEq] at heq
      rw [← heq.1]
      exact ⟨rfl, rfl⟩
    · split at hnext
      · cases hnext
      · split at hnext
        · split at hnext
          · split at hnext
            · rw [Option.some.injEq, Prod.mk.injEq] at hnext
              rw [← hnext.1]
              exact ⟨rfl, rfl⟩
            · cases hnext
          · cases hnext
        · cases hnext

omit [TreeKey K] in
lemma nextDuplicate_none (hit : it.duplicateNode = none) : it.nextDuplicate t = none := by
  unfold nextDuplicate
  rw [hit]

lemma traverse_forward {key : ℤ} (hok : TreeOk ord t h D) (hdup : NoDuplicates t h)
    (hit : Stands t h A r B key it) (hsingle : it.duplicateNode = none) (hkey : -1 ≤ key) :
    ((nodeAt t.slots r.offset).entries.drop (key + 1).toNat ++ entriesOf t.slots B = [] →
      ∃ it', it.traverse t behind .forward = some ⟨it', .entryNotFound, none⟩) ∧
    (∀ e rest, (nodeAt t.slots r.offset).entries.drop (key + 1).toNat ++ entriesOf t.slots B =
        e :: rest →
      ∃ it' A' r' B' key', it.traverse t behind .forward = some ⟨it', .ok, some ⟨some e.1, e.2⟩⟩ ∧
        Stands t h A' r' B' key' it' ∧ it'.duplicateNode = none ∧ -1 ≤ key' ∧
        rest = (nodeAt t.slots r'.offset).entries.drop (key' + 1).toNat ++
          entriesOf t.slots B') := by
  have hrounds : B.length < t.numNodes := by
    have hgt := hok.numNodes_gt.1
    rw [hit.level, List.length_append, List.length_cons] at hgt
    omega
  obtain ⟨hend, hnext⟩ := traverseLoop_forward hok t.numNodes A r B (key + 1).toNat hit.level hrounds
  rw [Int.toNat_of_nonneg (by omega)] at hend hnext
  have htraverse := traverse_eq behind .forward hok hit (nextDuplicate_none hsingle)
  rw [if_pos rfl] at htraverse
  refine ⟨fun hnil => ?_, fun e rest hrest => ?_⟩
  · rw [hend hnil] at htraverse
    exact ⟨_, htraverse⟩
  · obtain ⟨A', r', B', key', hL', hloop, he, hrest'⟩ := hnext e rest hrest
    have hmem : e ∈ entriesOf t.slots (t.leaves h) := by
      rw [hL', entriesOf_append, entriesOf_cons]
      exact List.mem_append_right _ (List.mem_append_left _ (List.mem_of_getElem? he))
    obtain ⟨hnode, hfragment⟩ := hdup e hmem
    rw [hloop, Option.map_some] at htraverse
    dsimp only at htraverse
    rw [deliver_pair (hok.leafAt hL').ok he hnode hfragment] at htraverse
    refine ⟨_, A', r', B', key', htraverse, ⟨hL', rfl, rfl⟩, rfl, by omega, ?_⟩
    rw [hrest', show ((key' : ℤ) + 1).toNat = key' + 1 by omega]

/-! ## All calls -/

/-- The calls return these entries, and then `B_ENTRY_NOT_FOUND`. -/
def Yields (t : Tree K) (behind : ℕ → K × ℕ) (direction : Direction) :
    TreeIterator → List (Entry K) → Prop
  | it, [] => ∃ it', it.traverse t behind direction = some ⟨it', .entryNotFound, none⟩
  | it, e :: es => ∃ it', it.traverse t behind direction = some ⟨it', .ok, some e⟩ ∧
    Yields t behind direction it' es

lemma Yields.unique {direction : Direction} {es : List (Entry K)} :
    ∀ {it : TreeIterator} {es' : List (Entry K)}, Yields t behind direction it es →
      Yields t behind direction it es' → es = es' := by
  induction es with
  | nil =>
    rintro it es' ⟨it₁, hit₁⟩ hes'
    cases es' with
    | nil => rfl
    | cons e es' =>
      obtain ⟨it₂, hit₂, -⟩ := hes'
      rw [hit₁] at hit₂
      cases hit₂
  | cons e es ih =>
    rintro it es' ⟨it₁, hit₁, hes⟩ hes'
    cases es' with
    | nil =>
      obtain ⟨it₂, hit₂⟩ := hes'
      rw [hit₁] at hit₂
      cases hit₂
    | cons e' es' =>
      obtain ⟨it₂, hit₂, hes₂⟩ := hes'
      rw [hit₁] at hit₂
      cases hit₂
      rw [ih hes hes₂]

def entryOf (e : K × ℕ) : Entry K := ⟨some e.1, e.2⟩

lemma yields_forward (hok : TreeOk ord t h D) (hdup : NoDuplicates t h)
    (es : List (K × ℕ)) : ∀ {it : TreeIterator} {A : List (Ref K)} {r : Ref K} {B : List (Ref K)}
      {key : ℤ}, Stands t h A r B key it → it.duplicateNode = none → -1 ≤ key →
      (nodeAt t.slots r.offset).entries.drop (key + 1).toNat ++ entriesOf t.slots B = es →
      Yields t behind .forward it (es.map entryOf) := by
  induction es with
  | nil =>
    intro it A r B key hit hsingle hkey hes
    exact (traverse_forward hok hdup hit hsingle hkey).1 hes
  | cons e es ih =>
    intro it A r B key hit hsingle hkey hes
    obtain ⟨it', A', r', B', key', htraverse, hit', hsingle', hkey', hrest⟩ :=
      (traverse_forward hok hdup hit hsingle hkey).2 e es hes
    exact ⟨it', htraverse, ih hit' hsingle' hkey' hrest.symm⟩

/-- The number of positions to the left of one: those behind the last key of a node count. -/
def positionsLeft (s : ℕ → Slot K) (A : List (Ref K)) (key : ℕ) : ℕ :=
  key + (A.map fun r => (nodeAt s r.offset).numKeys + 1).sum

lemma traverse_backward {key : ℕ} {o : Outcome K} (hok : TreeOk ord t h D)
    (hit : Stands t h A r B key it) (ho : it.traverse t behind .backward = some o) :
    (o.status = .entryNotFound → positionsLeft t.slots A key = 0) ∧
    (o.status = .ok → ∃ A' r' B' key', Stands t h A' r' B' (key' : ℕ) o.iterator ∧
      positionsLeft t.slots A key ≤ positionsLeft t.slots A' key' + 1) := by
  have hbackward : ¬Direction.backward = .forward := by decide
  have hrounds : 2 ≤ t.numNodes := by
    obtain ⟨hgt, hne⟩ := hok.numNodes_gt
    have hpos := List.length_pos_of_ne_nil hne
    omega
  cases hnext : it.nextDuplicate t with
  | some p =>
    obtain ⟨it', value⟩ := p
    obtain ⟨hnode, hkey⟩ := nextDuplicate_position hnext
    have hresult : it.traverse t behind .backward = some ⟨it', .ok, some ⟨none, value⟩⟩ := by
      unfold traverse
      rw [if_neg (by rw [hit.node]; simp)]
      show (if it.currentNodeOffset = .free then _ else _) = _
      rw [if_neg (by rw [hit.node]; simp), hnext]
    rw [hresult, Option.some.injEq] at ho
    rw [← ho]
    have hok : Status.ok ≠ .entryNotFound := by decide
    refine ⟨fun hstatus => absurd hstatus hok,
      fun _ => ⟨A, r, B, key, ⟨hit.level, ?_, ?_⟩, ?_⟩⟩
    · exact hnode.trans hit.node
    · exact hkey.trans hit.key
    · exact Nat.le_succ _
  | none =>
    have htraverse := traverse_eq behind .backward hok hit hnext
    rw [ho, if_neg hbackward] at htraverse
    obtain ⟨hstay, hend, hleft⟩ := traverseLoop_backward hok hrounds hit.level ((key : ℤ) - 1)
    -- A position that is delivered is the one the iterator has afterwards.
    have hdeliver : ∀ A' r' B' key', t.leaves h = A' ++ r' :: B' →
        o = { it with duplicateNode := none }.deliver t behind r'.offset (key' : ℕ)
          (nodeAt t.slots r'.offset) →
        positionsLeft t.slots A key ≤ positionsLeft t.slots A' key' + 1 →
        (o.status = .entryNotFound → positionsLeft t.slots A key = 0) ∧
        (o.status = .ok → ∃ A' r' B' key', Stands t h A' r' B' (key' : ℕ) o.iterator ∧
          positionsLeft t.slots A key ≤ positionsLeft t.slots A' key' + 1) := by
      intro A' r' B' key' hL' heq hle
      obtain ⟨hnode, hkey, hstatus⟩ := deliver_position (t := t) behind
        { it with duplicateNode := none } r'.offset (key' : ℕ) (nodeAt t.slots r'.offset)
      rw [← heq] at hnode hkey hstatus
      exact ⟨fun h => absurd h hstatus, fun _ => ⟨A', r', B', key', ⟨hL', hnode, hkey⟩, hle⟩⟩
    cases key with
    | succ key =>
      have hpred : ((key + 1 : ℕ) : ℤ) - 1 = (key : ℕ) := by omega
      rw [hpred] at hstay htraverse
      rw [hstay (Int.natCast_nonneg _), Option.map_some, Option.some.injEq] at htraverse
      refine hdeliver A r B key hit.level htraverse ?_
      unfold positionsLeft
      omega
    | zero =>
      rcases List.eq_nil_or_concat A with rfl | ⟨A', r', hA⟩
      · rw [hend (by omega) rfl, Option.map_some, Option.some.injEq] at htraverse
        rw [htraverse]
        have hnotFound : Status.entryNotFound ≠ .ok := by decide
        exact ⟨fun _ => rfl, fun hstatus => absurd hstatus hnotFound⟩
      · rw [List.concat_eq_append] at hA
        have hL' : t.leaves h = A' ++ r' :: r :: B := by
          rw [hit.level, hA, List.append_assoc]
          rfl
        rw [hleft A' r' (by omega) hA, Option.map_some, Option.some.injEq] at htraverse
        refine hdeliver A' r' (r :: B) (nodeAt t.slots r'.offset).numKeys hL' htraverse ?_
        unfold positionsLeft
        rw [hA, List.map_append, List.sum_append, List.map_singleton, List.sum_singleton]
        omega

lemma positionsLeft_le (hok : TreeOk ord t h D) (es : List (Entry K)) :
    ∀ {it : TreeIterator} {A : List (Ref K)} {r : Ref K} {B : List (Ref K)} {key : ℕ},
      Stands t h A r B key it → Yields t behind .backward it es →
      positionsLeft t.slots A key ≤ es.length := by
  induction es with
  | nil =>
    rintro it A r B key hit ⟨it', htraverse⟩
    rw [(traverse_backward hok hit htraverse).1 rfl]
    exact Nat.zero_le _
  | cons e es ih =>
    rintro it A r B key hit ⟨it', htraverse, hes⟩
    obtain ⟨A', r', B', key', hit', hle⟩ := (traverse_backward hok hit htraverse).2 rfl
    have hle' := ih hit' hes
    rw [List.length_cons]
    omega

variable (behind) in
lemma yields_backward_first (hok : TreeOk ord t h D) (hdup : NoDuplicates t h) (key : ℕ) :
    ∀ {it : TreeIterator}, Stands t h [] r B key it → it.duplicateNode = none →
      key ≤ (nodeAt t.slots r.offset).numKeys →
      Yields t behind .backward it
        (((nodeAt t.slots r.offset).entries.take key).map entryOf).reverse := by
  have hbackward : ¬Direction.backward = .forward := by decide
  have hrounds : 2 ≤ t.numNodes := by
    obtain ⟨hgt, hne⟩ := hok.numNodes_gt
    have hpos := List.length_pos_of_ne_nil hne
    omega
  induction key with
  | zero =>
    intro it hit hsingle _
    have htraverse := traverse_eq behind .backward hok hit (nextDuplicate_none hsingle)
    obtain ⟨-, hend, -⟩ := traverseLoop_backward hok hrounds hit.level ((0 : ℕ) - 1 : ℤ)
    rw [if_neg hbackward, hend (by decide) rfl] at htraverse
    exact ⟨_, htraverse⟩
  | succ key ih =>
    intro it hit hsingle hkey
    have htraverse := traverse_eq behind .backward hok hit (nextDuplicate_none hsingle)
    obtain ⟨hstay, -, -⟩ := traverseLoop_backward hok hrounds hit.level ((key + 1 : ℕ) - 1 : ℤ)
    have hpred : ((key + 1 : ℕ) : ℤ) - 1 = (key : ℕ) := by omega
    rw [hpred] at hstay htraverse
    have hlt : key < (nodeAt t.slots r.offset).entries.length := hkey
    have he := List.getElem?_eq_getElem hlt
    have hmem : (nodeAt t.slots r.offset).entries[key] ∈ entriesOf t.slots (t.leaves h) := by
      rw [hit.level, List.nil_append, entriesOf_cons]
      exact List.mem_append_left _ (List.getElem_mem hlt)
    obtain ⟨hnode, hfragment⟩ := hdup _ hmem
    rw [if_neg hbackward, hstay (Int.natCast_nonneg _), Option.map_some] at htraverse
    dsimp only at htraverse
    rw [deliver_pair (hok.leafAt hit.level).ok he hnode hfragment] at htraverse
    rw [List.take_add_one, he, Option.toList_some, List.map_append, List.reverse_append]
    exact ⟨_, htraverse, ih ⟨hit.level, rfl, rfl⟩ rfl (by omega)⟩

/-! ## Both directions -/

/-- The entries from the end to the beginning are those from the beginning to the end, in the
opposite order. -/
def DirectionsAgree (t : Tree K) (behind : ℕ → K × ℕ) : Prop :=
  ∃ es, Yields t behind .forward create es ∧ Yields t behind .backward create es.reverse

lemma yields_create {direction : Direction} (es : List (Entry K))
    (hgoto : create.goto t direction = some (it, .ok)) (hit : it.currentNodeOffset ≠ .null) :
    Yields t behind direction create es ↔ Yields t behind direction it es := by
  have heq : create.traverse t behind direction = it.traverse t behind direction := by
    unfold traverse
    dsimp only
    rw [if_neg hit, if_pos (show create.currentNodeOffset = .null from rfl), hgoto]
  cases es with
  | nil => rw [Yields, Yields, heq]
  | cons e es => rw [Yields, Yields, heq]

lemma TreeOk.shape_top (hok : TreeOk ord t h D) :
    (offsets t.slots h t.top).Nodup ∧ h < t.numNodes := by
  refine ⟨(List.nodup_append.1 hok.account.nodup).1, ?_⟩
  have hgt := hok.numNodes_gt.1
  omega

lemma goto_begin (hok : TreeOk ord t h D) : ∃ it r B, create.goto t .forward = some (it, .ok) ∧
    Stands t h [] r B (-1) it ∧ it.duplicateNode = none := by
  obtain ⟨hnodup, hrounds⟩ := TreeOk.shape_top hok
  obtain ⟨r, B, hleaves, hgoto⟩ := gotoLoop_first t.numNodes hok.shape hnodup
    (fun o ho => hok.isNodeOffset ho) hrounds
  unfold goto
  rw [hgoto]
  exact ⟨_, r, B, rfl, ⟨hleaves, rfl, rfl⟩, rfl⟩

lemma goto_end (hok : TreeOk ord t h D) : ∃ it A r, create.goto t .backward = some (it, .ok) ∧
    Stands t h A r [] (nodeAt t.slots r.offset).numKeys it ∧ it.duplicateNode = none := by
  obtain ⟨hnodup, hrounds⟩ := TreeOk.shape_top hok
  obtain ⟨A, r, hleaves, hgoto⟩ := gotoLoop_last (A := []) t.numNodes hok.shape hnodup
    (fun o ho => hok.isNodeOffset ho) hrounds
  unfold goto
  rw [hgoto]
  exact ⟨_, A, r, rfl, ⟨hleaves, rfl, rfl⟩, rfl⟩

omit [TreeKey K] in
lemma length_entriesOf (s : ℕ → Slot K) (L : List (Ref K)) :
    (L.map fun r => (nodeAt s r.offset).numKeys + 1).sum = (entriesOf s L).length + L.length := by
  induction L with
  | nil => rfl
  | cons r L ih =>
    rw [List.map_cons, List.sum_cons, ih, entriesOf_cons, List.length_append, List.length_cons,
      Node.numKeys]
    omega

/-- The directions agree exactly if the tree has a single leaf. -/
theorem directionsAgree_iff (behind : ℕ → K × ℕ) (hok : TreeOk ord t h D)
    (hdup : NoDuplicates t h) : DirectionsAgree t behind ↔ (t.leaves h).length = 1 := by
  obtain ⟨it, r, B, hgoto, hit, hsingle⟩ := goto_begin hok
  obtain ⟨it', A', r', hgoto', hit', hsingle'⟩ := goto_end hok
  have hforward : Yields t behind .forward create
      ((entriesOf t.slots (t.leaves h)).map entryOf) := by
    rw [yields_create _ hgoto (by rw [hit.node]; simp)]
    apply yields_forward hok hdup _ hit hsingle (by decide)
    rw [hit.level]
    rfl
  have hcreate : ∀ es, Yields t behind .backward create es ↔ Yields t behind .backward it' es :=
    fun es => yields_create es hgoto' (by rw [hit'.node]; simp)
  constructor
  · rintro ⟨es, hes, hback⟩
    rw [hcreate] at hback
    have hle := positionsLeft_le hok es.reverse hit' hback
    rw [List.length_reverse, hes.unique hforward, List.length_map, positionsLeft] at hle
    have hcount := length_entriesOf t.slots (t.leaves h)
    rw [hit'.level] at hcount hle ⊢
    rw [List.map_append, List.sum_append, List.map_singleton, List.sum_singleton,
      List.length_append, List.length_singleton] at hcount
    rw [List.length_append, List.length_singleton]
    omega
  · intro hone
    refine ⟨_, hforward, ?_⟩
    rw [hcreate]
    have hA : A' = [] := by
      rw [hit'.level, List.length_append, List.length_singleton] at hone
      exact List.eq_nil_of_length_eq_zero (by omega)
    subst hA
    have hback := yields_backward_first behind hok hdup _ hit' hsingle' (Nat.le_refl _)
    have hentries : entriesOf t.slots (t.leaves h) = (nodeAt t.slots r'.offset).entries := by
      rw [hit'.level, List.nil_append, entriesOf_cons, entriesOf_nil, List.append_nil]
    have htake : (nodeAt t.slots r'.offset).entries.take (nodeAt t.slots r'.offset).numKeys =
        (nodeAt t.slots r'.offset).entries := List.take_length
    rw [htake] at hback
    rw [hentries]
    exact hback

def oneLeaf : Tree (Key .string) where
  maxNumberOfLevels := 1
  rootNode := 1024
  freeNode := .null
  maximumSize := 2048
  allowDuplicates := false
  slots := fun _ => .node ⟨.null, .null, .null, [(⟨[97]⟩, 1000), (⟨[98]⟩, 1001)]⟩
  iterators := []

lemma treeOk_oneLeaf : TreeOk (KeyOrder.unordered (Key .string)) oneLeaf 0 [] := by
  refine ⟨rfl, ⟨fun r hr => ?_, ⟨rfl, rfl, trivial⟩, fun r _ => ⟨?_, fun _ _ => .inl trivial⟩, ?_⟩,
    ⟨rfl, by decide, [], trivial, by decide⟩⟩
  · exact ⟨_, rfl, rfl, by decide, fun e he => ⟨trivial, by revert e; decide⟩⟩
  · exact List.pairwise_of_forall fun _ _ => trivial
  · exact List.pairwise_of_forall fun _ _ _ _ => trivial

theorem directionsAgree_iff_oneLeaf :
    DirectionsAgree oneLeaf (fun _ => (⟨[]⟩, 0)) ↔ (oneLeaf.leaves 0).length = 1 :=
  directionsAgree_iff _ treeOk_oneLeaf (by unfold NoDuplicates; decide)

def twoLeaves : Tree (Key .string) where
  maxNumberOfLevels := 2
  rootNode := 1024
  freeNode := .null
  maximumSize := 4096
  allowDuplicates := false
  slots := fun offset =>
    if offset = 1024 then .node ⟨.null, .null, .node 3072, [(⟨[97]⟩, 2048)]⟩
    else if offset = 2048 then .node ⟨.null, .node 3072, .null, [(⟨[97]⟩, 1000)]⟩
    else .node ⟨.node 2048, .null, .null, [(⟨[98]⟩, 1001)]⟩
  iterators := []

lemma treeOk_twoLeaves : TreeOk (KeyOrder.unordered (Key .string)) twoLeaves 1 [] := by
  refine ⟨rfl, ⟨⟨fun r hr => ?_, ⟨rfl, rfl, trivial⟩, ?_⟩, ⟨fun r hr => ?_,
    ⟨rfl, rfl, rfl, rfl, trivial⟩, fun r _ => ⟨?_, fun _ _ => .inl trivial⟩, ?_⟩⟩,
    ⟨rfl, by decide, [], trivial, by decide⟩⟩
  · rw [List.mem_singleton.1 hr]
    exact ⟨_, 3072, rfl, rfl, by decide, fun e he => ⟨trivial, by revert e; decide⟩⟩
  · exact List.pairwise_of_forall fun _ _ => trivial
  · rcases List.mem_cons.1 hr with rfl | hr
    · exact ⟨_, rfl, rfl, by decide, fun e he => ⟨trivial, by revert e; decide⟩⟩
    · rw [List.mem_singleton.1 hr]
      exact ⟨_, rfl, rfl, by decide, fun e he => ⟨trivial, by revert e; decide⟩⟩
  · exact List.pairwise_of_forall fun _ _ => trivial
  · exact List.pairwise_of_forall fun _ _ _ _ => trivial

/-- Behind the last key of the first leaf, the number 1000 of its only value is taken for the end
of a key, which is then too long. -/
theorem not_directionsAgree : ¬∀ (t : Tree (Key .string)) (h : ℕ) (D : List ℕ)
    (behind : ℕ → Key .string × ℕ), TreeOk (KeyOrder.unordered (Key .string)) t h D →
      NoDuplicates t h → DirectionsAgree t behind := by
  intro hall
  obtain ⟨es, -, hback⟩ := hall twoLeaves 1 [] (fun _ => (⟨[]⟩, 0)) treeOk_twoLeaves
    (by unfold NoDuplicates; decide)
  have hfirst : create.traverse twoLeaves (fun _ => (⟨[]⟩, 0)) .backward =
      some ⟨⟨.node 3072, 0, none, 0, 0, false⟩, .ok, some ⟨some ⟨[98]⟩, 1001⟩⟩ := by
    decide
  have hsecond : (⟨.node 3072, 0, none, 0, 0, false⟩ : TreeIterator).traverse twoLeaves
      (fun _ => (⟨[]⟩, 0)) .backward =
      some ⟨⟨.node 2048, 1, none, 0, 0, false⟩, .badData, none⟩ := by
    decide
  generalize es.reverse = es' at hback
  cases es' with
  | nil =>
    obtain ⟨it, hit⟩ := hback
    rw [hfirst] at hit
    cases hit
  | cons e es' =>
    obtain ⟨it, hit, hback⟩ := hback
    rw [hfirst] at hit
    cases hit
    cases es' with
    | nil =>
      obtain ⟨it, hit⟩ := hback
      rw [hsecond] at hit
      cases hit
    | cons e es' =>
      obtain ⟨it, hit, -⟩ := hback
      rw [hsecond] at hit
      cases hit

end TreeIterator

end Haiku.BPlusTree
