import Haiku.BPlusTree.Iterator
import Haiku.Lib.Linked
import Mathlib.Data.List.Nodup

/-!
# The invariant of a tree

The tree is described level by level. A level is the list of its nodes from left to right, each
with an upper bound of its keys, its fence; the last node of a level has none. The nodes of the
next level are the children of these, and their fences the separators.

* `Shape` says what holds of a level and of all levels below it: every node is readable, the
  nodes are linked in both directions, separators and keys are ordered, and the leaves are all
  on the last level.
* `Account` says that every slot of the stream is in use or on the free list, and not both.
* What is needed of the order of the keys is a `KeyOrder`. It may also say nothing at all, for
  results that do not depend on the order.
-/

namespace Haiku.BPlusTree

open Lib

section

variable {K : Type}

/-- What the tree relies on in comparing keys. `none` stands for a missing upper bound. -/
structure KeyOrder (K : Type) [TreeKey K] where
  Valid : K → Prop
  lt : Option K → Option K → Prop
  trans : ∀ {a b c}, lt a b → lt b c → lt a c
  lt_none : ∀ k, lt (some k) none
  of_neg : ∀ {a b}, Valid a → Valid b → compareKeys a b < 0 → lt (some a) (some b)
  of_pos : ∀ {a b}, Valid a → Valid b → 0 < compareKeys a b → lt (some b) (some a)
  /-- Keys that compare as equal are equal, unless the order says nothing. -/
  of_zero : ∀ {a b}, Valid a → Valid b → compareKeys a b = 0 → a = b ∨ ∀ x y, lt x y

def KeyOrder.le [TreeKey K] (ord : KeyOrder K) (a b : Option K) : Prop := ord.lt a b ∨ a = b

def KeyOrder.unordered (K : Type) [TreeKey K] : KeyOrder K where
  Valid _ := True
  lt _ _ := True
  trans _ _ := trivial
  lt_none _ := trivial
  of_neg _ _ _ := trivial
  of_pos _ _ _ := trivial
  of_zero _ _ _ := .inr fun _ _ => trivial

/-! ## Levels -/

/-- A node of a level: an upper bound of its keys, and its offset. -/
structure Ref (K : Type) where
  fence : Option K
  offset : ℕ

def nodeAt (s : ℕ → Slot K) (offset : ℕ) : Node K :=
  match s offset with
  | .node n => n
  | _ => .initialized

def leftOf (s : ℕ → Slot K) (offset : ℕ) : Link := (nodeAt s offset).leftLink

def rightOf (s : ℕ → Slot K) (offset : ℕ) : Link := (nodeAt s offset).rightLink

/-- The pairs of an index node, read as nodes of the next level. -/
def refs (es : List (K × ℕ)) : List (Ref K) := es.map fun e => ⟨some e.1, e.2⟩

/-- The children of an index node. The overflow link has the fence of the node itself. -/
def Node.children (n : Node K) (fence : Option K) : List (Ref K) :=
  refs n.entries ++
    match n.overflowLink with
    | .node offset => [⟨fence, offset⟩]
    | _ => []

def kids (s : ℕ → Slot K) (L : List (Ref K)) : List (Ref K) :=
  L.flatMap fun r => (nodeAt s r.offset).children r.fence

def levelOffsets (L : List (Ref K)) : List ℕ := L.map Ref.offset

/-- The offsets of the nodes of a level and of the levels below it. -/
def offsets (s : ℕ → Slot K) : ℕ → List (Ref K) → List ℕ
  | 0, L => levelOffsets L
  | h + 1, L => levelOffsets L ++ offsets s h (kids s L)

def leaves (s : ℕ → Slot K) : ℕ → List (Ref K) → List (Ref K)
  | 0, L => L
  | h + 1, L => leaves s h (kids s L)

def entriesOf (s : ℕ → Slot K) (L : List (Ref K)) : List (K × ℕ) :=
  L.flatMap fun r => (nodeAt s r.offset).entries

def Tree.top (t : Tree K) : List (Ref K) := [⟨none, t.rootNode⟩]

/-! ## Accounting -/

def FreeChain (s : ℕ → Slot K) : Link → List ℕ → Prop
  | .null, [] => True
  | .node offset, o :: os => offset = o ∧ ∃ next, s offset = .free next ∧ FreeChain s next os
  | _, _ => False

/-- The offsets of all node-sized slots behind the header. -/
def allOffsets (maximumSize : ℕ) : List ℕ :=
  (List.range (maximumSize / nodeSize - 1)).map fun i => (i + 1) * nodeSize

/-- The slots in use and those on the free list are all slots, each once. -/
structure Account (t : Tree K) (used : List ℕ) : Prop where
  aligned : t.maximumSize % nodeSize = 0
  header : nodeSize ≤ t.maximumSize
  free : ∃ F, FreeChain t.slots t.freeNode F ∧ (used ++ F).Perm (allOffsets t.maximumSize)

/-! ## Well-formed trees -/

variable [TreeKey K]

/-- The test of a key's length at the beginning of each operation. -/
def isKeyLength (key : K) : Bool :=
  minKeyLength ≤ keyLength key ∧ keyLength key ≤ maxKeyLength

/-- A node that passes `CheckNode()` and has proper keys. -/
structure NodeOk (ord : KeyOrder K) (n : Node K) : Prop where
  used_le : n.used ≤ nodeSize
  keys : ∀ e ∈ n.entries, ord.Valid e.1 ∧ isKeyLength e.1 = true

omit [TreeKey K] in
/-- The nodes of a level are linked from left to right. -/
def LevelLinked (s : ℕ → Slot K) (L : List (Ref K)) : Prop :=
  Linked Link.node (leftOf s) (rightOf s) .null (levelOffsets L) .null

/-- A level of index nodes. The fences of the next level include the keys of this one. -/
structure IndexLevel (ord : KeyOrder K) (s : ℕ → Slot K) (L : List (Ref K)) : Prop where
  nodes : ∀ r ∈ L, ∃ n c, s r.offset = .node n ∧ n.overflowLink = .node c ∧ NodeOk ord n
  linked : LevelLinked s L
  ordered : (kids s L).Pairwise fun a b => ord.lt a.fence b.fence

structure LeafLevel (ord : KeyOrder K) (s : ℕ → Slot K) (L : List (Ref K)) : Prop where
  nodes : ∀ r ∈ L, ∃ n, s r.offset = .node n ∧ n.overflowLink = .null ∧ NodeOk ord n
  linked : LevelLinked s L
  sorted : ∀ r ∈ L,
    ((nodeAt s r.offset).entries.Pairwise fun a b => ord.lt (some a.1) (some b.1)) ∧
      ∀ e ∈ (nodeAt s r.offset).entries, ord.le (some e.1) r.fence
  ordered : L.Pairwise fun a b =>
    ∀ e ∈ (nodeAt s b.offset).entries, ord.lt a.fence (some e.1)

def Shape (ord : KeyOrder K) (s : ℕ → Slot K) : ℕ → List (Ref K) → Prop
  | 0, L => LeafLevel ord s L
  | h + 1, L => IndexLevel ord s L ∧ Shape ord s h (kids s L)

/-- A tree with `h` levels below the root. `D` are the slots with duplicates. -/
structure TreeOk (ord : KeyOrder K) (t : Tree K) (h : ℕ) (D : List ℕ) : Prop where
  levels : t.maxNumberOfLevels = h + 1
  shape : Shape ord t.slots h t.top
  account : Account t (offsets t.slots h t.top ++ D)

end

/-!
## Levels and their nodes

The nodes of a level that is linked properly can be read, and so can those of the levels below it.
-/

variable {K : Type} {t : Tree K} {used : List ℕ}

lemma le_keyAlign (n : ℕ) : n ≤ keyAlign n := by
  unfold keyAlign
  omega

lemma children_index {n : Node K} {c : ℕ} (h : n.overflowLink = .node c) (f : Option K) :
    n.children f = refs n.entries ++ [⟨f, c⟩] := by
  rw [Node.children, h]

section Search

variable [TreeKey K] {ord : KeyOrder K} {n : Node K}

lemma sum_take_le (l : List ℕ) (i : ℕ) : (l.take i).sum ≤ l.sum := by
  have h := congrArg List.sum (List.take_append_drop i l)
  rw [List.sum_append] at h
  omega

lemma keyInBounds_of_ok (hn : NodeOk ord n) {i : ℕ} (hi : i < n.numKeys) :
    n.keyInBounds i = true := by
  have hused := hn.used_le
  have hsum := sum_take_le n.lengths (i + 1)
  have halign := le_keyAlign (nodeHeaderSize + n.allKeyLength)
  obtain ⟨e, he⟩ : ∃ e, n.entries[i]? = some e := ⟨_, List.getElem?_eq_getElem hi⟩
  have hkey := (hn.keys e (List.mem_of_getElem? he)).2
  simp only [isKeyLength, decide_eq_true_eq] at hkey
  simp only [Node.keyInBounds, Node.lengths, List.getD_eq_getElem?_getD, List.getElem?_map, he,
    Option.map_some, Option.getD_some, decide_eq_true_eq]
  simp only [Node.used, Node.allKeyLength, Node.lengths, pairSize] at *
  omega

end Search

/-! ## The offsets of the slots -/

lemma mem_allOffsets {m o : ℕ} (hm : m % nodeSize = 0) :
    o ∈ allOffsets m ↔ o + nodeSize ≤ m ∧ 0 < o ∧ o % nodeSize = 0 := by
  simp only [allOffsets, List.mem_map, List.mem_range, nodeSize] at *
  constructor
  · rintro ⟨i, hi, rfl⟩
    omega
  · intro h
    exact ⟨o / 1024 - 1, by omega, by omega⟩

lemma nodup_allOffsets (m : ℕ) : (allOffsets m).Nodup := by
  refine List.Nodup.map ?_ List.nodup_range
  intro i j h
  simp only [nodeSize] at h
  omega

namespace Account

lemma nodup (h : Account t used) : used.Nodup := by
  obtain ⟨F, -, hperm⟩ := h.free
  exact (List.nodup_append.1 (hperm.nodup_iff.2 (nodup_allOffsets _))).1

lemma isNodeOffset (h : Account t used) {o : ℕ} (ho : o ∈ used) :
    t.isNodeOffset o = true := by
  obtain ⟨F, -, hperm⟩ := h.free
  have hmem := hperm.mem_iff.1 (List.mem_append_left F ho)
  simpa [Tree.isNodeOffset] using (mem_allOffsets h.aligned).1 hmem

end Account

/-! ## Reading nodes -/

lemma isValidLink_of_isNodeOffset {o : ℕ} (h : t.isNodeOffset o = true) :
    t.isValidLink (.node o) = true := by
  simp only [Tree.isNodeOffset, decide_eq_true_eq, Tree.isValidLink] at *
  exact ⟨h.2.1, h.1⟩

lemma headLink_valid {os : List ℕ} (h : ∀ o ∈ os, t.isNodeOffset o = true) :
    t.isValidLink (headLink .node os .null) = true := by
  cases os with
  | nil => rfl
  | cons o os => exact isValidLink_of_isNodeOffset (h o List.mem_cons_self)

lemma lastLink_valid {os : List ℕ} (h : ∀ o ∈ os, t.isNodeOffset o = true) :
    t.isValidLink (lastLink .node .null os) = true := by
  rcases lastLink_cases Link.node .null os with ⟨-, hl⟩ | ⟨os', o, rfl, hl⟩
  · rw [hl]
    rfl
  · rw [hl]
    exact isValidLink_of_isNodeOffset (h o (by simp))

lemma nodeAt_eq {s : ℕ → Slot K} {o : ℕ} {n : Node K} (h : s o = .node n) : nodeAt s o = n := by
  rw [nodeAt, h]

section Read

variable [TreeKey K]

lemma setTo_eq {o : ℕ} {n : Node K} (ho : t.isNodeOffset o = true) (hn : t.slots o = .node n)
    (hc : t.checkNode n = true) : t.setTo (.node o) = some n := by
  simp [Tree.setTo, ho, hn, hc]

lemma setTo_of_level {L : List (Ref K)} {r : Ref K} {n : Node K}
    (hl : LevelLinked t.slots L) (hin : ∀ r ∈ L, t.isNodeOffset r.offset = true) (hr : r ∈ L)
    (hn : t.slots r.offset = .node n) (hused : n.used ≤ nodeSize)
    (hov : t.isValidLink n.overflowLink = true) : t.setTo (.node r.offset) = some n := by
  obtain ⟨A, B, rfl⟩ := List.append_of_mem hr
  rw [LevelLinked, levelOffsets, List.map_append, List.map_cons] at hl
  obtain ⟨hleft, hright⟩ := hl.at_middle
  rw [leftOf, nodeAt_eq hn] at hleft
  rw [rightOf, nodeAt_eq hn] at hright
  refine setTo_eq (hin r hr) hn ?_
  simp only [Tree.checkNode, decide_eq_true_eq]
  refine ⟨?_, ?_, hov, hused⟩
  · rw [hleft]
    apply lastLink_valid
    intro o ho
    obtain ⟨a, ha, rfl⟩ := List.mem_map.1 ho
    exact hin a (by simp [ha])
  · rw [hright]
    apply headLink_valid
    intro o ho
    obtain ⟨b, hb, rfl⟩ := List.mem_map.1 ho
    exact hin b (by simp [hb])

end Read

variable {s : ℕ → Slot K} {L : List (Ref K)} {r : Ref K} {o : ℕ}

/-! ## Parts of a level -/

@[simp] lemma kids_nil (s : ℕ → Slot K) : kids s [] = [] := rfl

@[simp] lemma kids_cons (s : ℕ → Slot K) (r : Ref K) (L : List (Ref K)) :
    kids s (r :: L) = (nodeAt s r.offset).children r.fence ++ kids s L := rfl

@[simp] lemma kids_append (s : ℕ → Slot K) (A B : List (Ref K)) :
    kids s (A ++ B) = kids s A ++ kids s B := List.flatMap_append

@[simp] lemma entriesOf_nil (s : ℕ → Slot K) : entriesOf s [] = [] := rfl

@[simp] lemma entriesOf_cons (s : ℕ → Slot K) (r : Ref K) (L : List (Ref K)) :
    entriesOf s (r :: L) = (nodeAt s r.offset).entries ++ entriesOf s L := rfl

@[simp] lemma entriesOf_append (s : ℕ → Slot K) (A B : List (Ref K)) :
    entriesOf s (A ++ B) = entriesOf s A ++ entriesOf s B := List.flatMap_append

@[simp] lemma levelOffsets_nil : levelOffsets ([] : List (Ref K)) = [] := rfl

@[simp] lemma levelOffsets_cons (r : Ref K) (L : List (Ref K)) :
    levelOffsets (r :: L) = r.offset :: levelOffsets L := rfl

@[simp] lemma levelOffsets_append (A B : List (Ref K)) :
    levelOffsets (A ++ B) = levelOffsets A ++ levelOffsets B := List.map_append

lemma mem_levelOffsets (h : r ∈ L) : r.offset ∈ levelOffsets L := List.mem_map_of_mem h

lemma levelOffsets_subset_offsets (s : ℕ → Slot K) (h : ℕ) (ho : o ∈ levelOffsets L) :
    o ∈ offsets s h L := by
  cases h with
  | zero => exact ho
  | succ h => exact List.mem_append_left _ ho

section Shape

variable [TreeKey K] {ord : KeyOrder K}

lemma Shape.leafLevel : ∀ {h : ℕ} {L : List (Ref K)}, Shape ord s h L →
    LeafLevel ord s (leaves s h L)
  | 0, _, hsh => hsh
  | h + 1, L, hsh =>
    (Shape.leafLevel hsh.2 : LeafLevel ord s (leaves s h (kids s L)))

omit [TreeKey K] in
lemma levelOffsets_leaves_subset : ∀ {h : ℕ} {L : List (Ref K)} {o : ℕ},
    o ∈ levelOffsets (leaves s h L) → o ∈ offsets s h L
  | 0, _, _, ho => ho
  | _ + 1, _, _, ho => List.mem_append_right _ (levelOffsets_leaves_subset ho)

lemma Shape.setTo {h : ℕ} (hsh : Shape ord t.slots h L)
    (hin : ∀ o ∈ offsets t.slots h L, t.isNodeOffset o = true) (hr : r ∈ L) :
    ∃ n, t.slots r.offset = .node n ∧ NodeOk ord n ∧ t.setTo (.node r.offset) = some n := by
  have hlevel : ∀ r ∈ L, t.isNodeOffset r.offset = true := fun r hr =>
    hin _ (levelOffsets_subset_offsets _ _ (mem_levelOffsets hr))
  cases h with
  | zero =>
    obtain ⟨n, hn, hov, hok⟩ := LeafLevel.nodes hsh r hr
    exact ⟨n, hn, hok, setTo_of_level (LeafLevel.linked hsh) hlevel hr hn hok.used_le
      (by rw [hov]; rfl)⟩
  | succ h =>
    obtain ⟨n, c, hn, hov, hok⟩ := hsh.1.nodes r hr
    refine ⟨n, hn, hok, setTo_of_level hsh.1.linked hlevel hr hn hok.used_le ?_⟩
    rw [hov]
    apply isValidLink_of_isNodeOffset
    apply hin
    refine List.mem_append_right _ (levelOffsets_subset_offsets _ _ ?_)
    refine List.mem_map.2 ⟨⟨r.fence, c⟩, List.mem_flatMap.2 ⟨r, hr, ?_⟩, rfl⟩
    rw [nodeAt_eq hn, children_index hov]
    exact List.mem_append_right _ List.mem_cons_self

end Shape

end Haiku.BPlusTree
