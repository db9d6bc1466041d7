import Haiku.Radix.DeallocTheorems
import Haiku.Radix.InitTheorems

/-!
# The radix bitmap allocates free slots

A `Pool` is a bitmap together with the slots that nobody holds. Every call that takes or gives back
slots keeps the tree in agreement with them, as long as no count is so large that it becomes
negative as an `int32`.
-/

namespace Haiku.Radix

open Lib

structure Pool where
  bmp : RadixBitmap
  free : ℕ → Bool

inductive Call
  | alloc (count : ℕ)
  | dealloc (slotIndex count : ℕ)

/-- One call; a call that leaves the array or does not end is undefined. -/
def step (s : Pool) : Call → Option Pool
  | .alloc count => (radixBitmapAlloc s.bmp count).map fun r =>
      { bmp  := r.1
        free := match r.2 with
          | some a => taken s.free a count
          | none => s.free }
  | .dealloc slotIndex count => (radixBitmapDealloc s.bmp slotIndex count).map fun bmp =>
      { bmp := bmp, free := freed s.free slotIndex count }

/-- At least one slot is allocated, and only slots that are not free are given back. -/
def Valid (slots : ℕ) (s : Pool) : Call → Prop
  | .alloc count => 1 ≤ count ∧ count < 2 ^ 32
  | .dealloc slotIndex count => 1 ≤ count ∧ slotIndex + count ≤ slots ∧
      ∀ i < count, s.free (slotIndex + i) = false

/-- The count of an allocation is positive as an `int32`. -/
def Small : Call → Prop
  | .alloc count => count < 2 ^ 31
  | .dealloc _ _ => True

/-- The call does what it is for: an allocation returns slots that are free, and fails only if no
leaf has enough of them in a row. -/
def Served (slots : ℕ) (s : Pool) : Call → Prop
  | .alloc count => ∃ bmp r, radixBitmapAlloc s.bmp count = some (bmp, r) ∧
      match r with
      | some a => a + count ≤ slots ∧ ∀ i < count, s.free (a + i) = true
      | none => ¬∃ leaf j, j + count ≤ 32 ∧ ∀ i < count, s.free (32 * leaf + j + i) = true
  | .dealloc slotIndex count => (radixBitmapDealloc s.bmp slotIndex count).isSome = true

/-- Every inner node at or below the node at `o` has the number of free slots below it. -/
def Available (nodes : Nodes) (free : ℕ → Bool) (slots : ℕ) : ℕ → ℕ → ℕ → Prop
  | 0, _, _ => True
  | k + 1, o, base => (nodes.at_ o).available = freeBelow free (k + 1) base ∧
      ∀ j < 16, base + j * span k < slots →
        Available nodes free slots k (o + 1 + j * width k) (base + j * span k)

def Counted (slots : ℕ) (s : Pool) : Prop :=
  s.bmp.freeSlots = Nat.count (fun x => s.free x = true) slots ∧
    ∃ k, s.bmp.radix = span k ∧ Available s.bmp.root s.free slots k 0 0

/-- A bitmap can be created, and whatever is done to it in calls that meet a condition, it counts
its slots and serves every such call. -/
def Correct (memory : ℕ → RadixNode) (slots : ℕ) (ok : Pool → Call → Prop) : Prop :=
  ∃ bmp, radixBitmapCreate memory slots = some bmp ∧
    ∀ hist s, Run step ok ⟨bmp, allFree slots⟩ hist s →
      Counted slots s ∧ ∀ call, ok s call → Served slots s call

structure Pool.Inv (s : Pool) (slots k : ℕ) : Prop where
  level : k ≤ 6
  radix : s.bmp.radix = span k
  skip : s.bmp.skip = width k - 1
  slots_pos : 0 < slots
  slots_le : slots ≤ span k
  free_lt : ∀ x, s.free x = true → x < slots
  tree : Tree s.bmp.root s.free slots k 0 0
  count : s.bmp.freeSlots = freeBelow s.free k 0

variable {s s' : Pool} {slots k c : ℕ} {free : ℕ → Bool}

lemma freeBelow_root (hle : slots ≤ span k) (hlt : ∀ x, free x = true → x < slots) :
    freeBelow free k 0 = Nat.count (fun x => free x = true) slots := by
  have hnone : Nat.count (fun i => free (0 + (slots + i)) = true) (span k - slots) = 0 := by
    rw [Nat.count_eq_card_filter_range, Finset.card_eq_zero, Finset.filter_eq_empty_iff]
    intro i _ hfree
    have := hlt _ hfree
    omega
  have hsplit : span k = slots + (span k - slots) := by omega
  rw [freeBelow, hsplit, Nat.count_add, hnone, Nat.add_zero]
  simp only [Nat.zero_add]

lemma Runs.of_leaf {leaf j base : ℕ} (hj : j + c ≤ 32) (halign : 32 ∣ base)
    (hlow : base ≤ 32 * leaf) (hhigh : 32 * leaf < base + span k)
    (hrun : ∀ i < c, free (32 * leaf + j + i) = true) : Runs free k base c := by
  induction k generalizing base with
  | zero =>
    have hspan : span 0 = 32 := rfl
    have hbase : 32 * leaf = base := by omega
    rw [hbase] at hrun
    exact ⟨j, hj, hrun⟩
  | succ k ih =>
    have hpos := span_pos k
    have hdiv := Nat.div_add_mod' (32 * leaf - base) (span k)
    have hmod := Nat.mod_lt (32 * leaf - base) hpos
    have hchild : (32 * leaf - base) / span k < 16 := by
      rw [Nat.div_lt_iff_lt_mul hpos, ← span_succ]
      omega
    refine ⟨(32 * leaf - base) / span k, hchild, ih ?_ (by omega) (by omega)⟩
    exact Nat.dvd_add halign (Dvd.dvd.mul_left (dvd_span k) _)

lemma Tree.available {nodes : Nodes} {o base : ℕ} (h : Tree nodes free slots k o base) :
    Available nodes free slots k o base := by
  induction k generalizing o base with
  | zero => trivial
  | succ k ih => exact ⟨h.2.2.1, fun j hj hin => ih ((h.2.2.2 j hj).1 hin)⟩

lemma Pool.Inv.counted (hi : s.Inv slots k) : Counted slots s :=
  ⟨by rw [hi.count, freeBelow_root hi.slots_le hi.free_lt], k, hi.radix, hi.tree.available⟩

lemma Pool.Inv.alloc_root (hi : s.Inv slots k) (hc : 1 ≤ c) (hc' : c < 2 ^ 31) :
    (∃ nodes, radixBitmapAlloc s.bmp c = some ({ s.bmp with root := nodes }, none) ∧
      Tree nodes s.free slots k 0 0 ∧ ¬Runs s.free k 0 c) ∨
    ∃ nodes a n, radixBitmapAlloc s.bmp c =
        some ({ s.bmp with root := nodes, freeSlots := n }, some a) ∧
      (∀ i < c, s.free (a + i) = true) ∧ Tree nodes (taken s.free a c) slots k 0 0 ∧
      n = freeBelow (taken s.free a c) k 0 := by
  have hcount : int32 c = c := int32_of_lt (by omega) (by omega)
  have halloc : ∃ nodes r, (if s.bmp.radix = bitmapRadix then
      radixLeafAlloc s.bmp.root 0 0 (int32 c)
      else radixNodeAlloc maxDepth s.bmp.root 0 0 (int32 c) s.bmp.radix s.bmp.skip) =
        some (nodes, r) ∧
      r.elim (Tree nodes s.free slots k 0 0 ∧ ¬Runs s.free k 0 c) fun a =>
        a + c ≤ span k ∧ (∀ i < c, s.free (a + i) = true) ∧
          Tree nodes (taken s.free a c) slots k 0 0 := by
    rw [hcount, hi.radix, hi.skip]
    have hlevel := hi.level
    have htree := hi.tree
    cases k with
    | zero =>
      have hleaf : span 0 = bitmapRadix := rfl
      obtain ⟨nodes, r, heq, -, hres⟩ :=
        @radixLeafAlloc_allocates s.free slots c hc s.bmp.root 0 0 hi.slots_pos htree
      rw [if_pos hleaf]
      refine ⟨nodes, r, heq, ?_⟩
      cases r with
      | none => exact hres
      | some a => exact ⟨by have := hres.2.1; omega, hres.2.2⟩
    | succ k =>
      have hskip : width (k + 1) - 1 = 16 * width k := by
        rw [width]
        omega
      obtain ⟨nodes, r, heq, -, hres⟩ := @radixNodeAlloc_allocates s.free slots c k hi.free_lt hc
        maxDepth (by have : maxDepth = 8 := rfl; omega) (by omega) s.bmp.root 0 0 hi.slots_pos htree
      rw [if_neg (span_succ_ne k), hskip]
      refine ⟨nodes, r, heq, ?_⟩
      cases r with
      | none => exact hres
      | some a => exact ⟨by have := hres.2.1; omega, hres.2.2⟩
  obtain ⟨nodes, r, heq, hres⟩ := halloc
  cases r with
  | none =>
    left
    refine ⟨nodes, ?_, hres⟩
    simp only [radixBitmapAlloc, heq, Option.map_some]
    rfl
  | some a =>
    rw [Option.elim_some] at hres
    right
    refine ⟨nodes, a, (s.bmp.freeSlots + 2 ^ 32 - c) % 2 ^ 32, ?_, hres.2.1, hres.2.2, ?_⟩
    · simp only [radixBitmapAlloc, heq, Option.map_some, Option.isSome_some, if_true]
    · have hbound : freeBelow s.free k 0 ≤ 2 ^ 29 := freeBelow_le.trans (span_le hi.level)
      have hcount := @freeBelow_taken s.free a c k 0 (Nat.zero_le a) (by omega) hres.2.1
      rw [hi.count]
      omega

lemma Pool.Inv.dealloc_root {a : ℕ} (hi : s.Inv slots k) (hc : 1 ≤ c) (hslots : a + c ≤ slots)
    (hused : ∀ i < c, s.free (a + i) = false) :
    ∃ nodes n, radixBitmapDealloc s.bmp a c =
        some { s.bmp with root := nodes, freeSlots := n } ∧
      Tree nodes (freed s.free a c) slots k 0 0 ∧ n = freeBelow (freed s.free a c) k 0 := by
  have hfits := hi.slots_le
  have hdealloc : ∃ nodes, (if s.bmp.radix = bitmapRadix then radixLeafDealloc s.bmp.root 0 a c
      else radixNodeDealloc maxDepth s.bmp.root 0 a c s.bmp.radix s.bmp.skip 0) = some nodes ∧
      Tree nodes (freed s.free a c) slots k 0 0 := by
    rw [hi.radix, hi.skip]
    have hlevel := hi.level
    have htree := hi.tree
    cases k with
    | zero =>
      have hleaf : span 0 = bitmapRadix := rfl
      obtain ⟨nodes, heq, -, hres⟩ := @radixLeafDealloc_deallocates slots s.free s.bmp.root 0 a c 0
        htree (Nat.dvd_zero 32) hc (Nat.zero_le a) (by omega) hslots hused
      rw [if_pos hleaf]
      exact ⟨nodes, heq, hres⟩
    | succ k =>
      have hskip : width (k + 1) - 1 = 16 * width k := by
        rw [width]
        omega
      obtain ⟨nodes, heq, -, hres⟩ := @radixNodeDealloc_deallocates slots k maxDepth
        (by have : maxDepth = 8 := rfl; omega) (by omega) s.free s.bmp.root 0 a c 0 htree
        (Nat.dvd_zero 32) hc (Nat.zero_le a) (by omega) hslots hused
      rw [if_neg (span_succ_ne k), hskip]
      exact ⟨nodes, heq, hres⟩
  obtain ⟨nodes, heq, hres⟩ := hdealloc
  refine ⟨nodes, (s.bmp.freeSlots + c) % 2 ^ 32, ?_, hres, ?_⟩
  · simp only [radixBitmapDealloc, heq, Option.map_some]
  · have hbound : freeBelow (freed s.free a c) k 0 ≤ 2 ^ 29 :=
      freeBelow_le.trans (span_le hi.level)
    have hcount := @freeBelow_freed s.free a c k 0 (Nat.zero_le a) (by omega) hused
    rw [hi.count]
    omega

lemma served_of_inv {call : Call} (hi : s.Inv slots k) (hvalid : Valid slots s call)
    (hsmall : Small call) : Served slots s call := by
  match call, hvalid, hsmall with
  | .alloc c, hvalid, hsmall =>
    rcases hi.alloc_root hvalid.1 hsmall with ⟨nodes, heq, -, hnone⟩ | ⟨nodes, a, n, heq, hall, -⟩
    · refine ⟨_, none, heq, ?_⟩
      intro hleaf
      obtain ⟨leaf, j, hj, hrun⟩ := hleaf
      have hfirst := hi.free_lt _ (hrun 0 hvalid.1)
      have hle := hi.slots_le
      exact hnone (Runs.of_leaf hj (Nat.dvd_zero 32) (Nat.zero_le _) (by omega) hrun)
    · have hc := hvalid.1
      have hlast := hi.free_lt _ (hall (c - 1) (by omega))
      exact ⟨_, some a, heq, by omega, hall⟩
  | .dealloc a c, hvalid, _ =>
    obtain ⟨nodes, n, heq, -⟩ := hi.dealloc_root hvalid.1 hvalid.2.1 hvalid.2.2
    show (radixBitmapDealloc s.bmp a c).isSome = true
    rw [heq, Option.isSome_some]

lemma inv_step {call : Call} (hi : s.Inv slots k) (hvalid : Valid slots s call)
    (hsmall : Small call) (hs : step s call = some s') : s'.Inv slots k := by
  match call, hvalid, hsmall with
  | .alloc c, hvalid, hsmall =>
    rcases hi.alloc_root hvalid.1 hsmall with ⟨nodes, heq, htree, -⟩ |
      ⟨nodes, a, n, heq, -, htree, hcount⟩
    · rw [step, heq, Option.map_some] at hs
      cases hs
      exact { hi with tree := htree }
    · rw [step, heq, Option.map_some] at hs
      cases hs
      exact { hi with
        tree    := htree
        free_lt := fun x hx => hi.free_lt x (taken_le hx)
        count   := hcount }
  | .dealloc a c, hvalid, _ =>
    obtain ⟨nodes, n, heq, htree, hcount⟩ := hi.dealloc_root hvalid.1 hvalid.2.1 hvalid.2.2
    rw [step, heq, Option.map_some] at hs
    cases hs
    refine { hi with tree := htree, free_lt := fun x hx => ?_, count := hcount }
    by_cases hmem : a ≤ x ∧ x < a + c
    · have := hvalid.2.1
      omega
    · have hx' : freed s.free a c x = true := hx
      rw [freed_of_notMem (by omega)] at hx'
      exact hi.free_lt x hx'

lemma radixBitmapCreate_spec (memory : ℕ → RadixNode) (hpos : 0 < slots)
    (hslots : slots ≤ 2 ^ 29) :
    ∃ bmp k, radixBitmapCreate memory slots = some bmp ∧
      Pool.Inv ⟨bmp, allFree slots⟩ slots k := by
  obtain ⟨k, hk, hle, hloop⟩ := @createLoop_spec slots 0 maxDepth hslots (Nat.zero_le 6) (by decide)
  have hloop' : createLoop slots maxDepth bitmapRadix 0 = some (span k, width k - 1) := hloop
  have hdepth : k < maxDepth := by
    have : maxDepth = 8 := rfl
    omega
  -- the first run only finds the size of the array
  obtain ⟨nodes₀, heq₀, -, -⟩ := @radixBitmapInit_inits slots k maxDepth hdepth ⟨0, memory⟩ none
    slots hpos hle fun o ho => by cases ho
  obtain ⟨nodes, heq, -, htree⟩ := @radixBitmapInit_inits slots k maxDepth hdepth
    ⟨1 + top k slots, memory⟩ (some 0) slots hpos hle fun o ho => by
      cases ho
      show 0 + top k slots < 1 + top k slots
      omega
  have hroot : slots = min (span k) (slots - 0) := by omega
  refine ⟨⟨slots, span k, width k - 1, nodes⟩, k, ?_, ?_⟩
  · simp only [radixBitmapCreate, hloop', Option.bind_some, heq₀, heq, Option.map_some]
  · exact {
      level     := hk
      radix     := rfl
      skip      := rfl
      slots_pos := hpos
      slots_le  := hle
      free_lt   := fun x hx => of_decide_eq_true hx
      tree      := (htree 0 rfl).2 0 hroot
      count     := by
        show slots = freeBelow (allFree slots) k 0
        rw [freeBelow_allFree]
        exact hroot }

/-- A bitmap whose allocations are smaller than `2 ^ 31` slots is correct. -/
theorem radix_bitmap_correct (memory : ℕ → RadixNode) (hpos : 1 ≤ slots) (hslots : slots ≤ 2 ^ 29) :
    Correct memory slots fun s call => Valid slots s call ∧ Small call := by
  obtain ⟨bmp, k, heq, hinit⟩ := radixBitmapCreate_spec memory hpos hslots
  refine ⟨bmp, heq, fun hist s hr => ?_⟩
  have hi : s.Inv slots k := hr.invariant (I := fun s => s.Inv slots k) hinit
    fun hi hok hs => inv_step hi hok.1 hok.2 hs
  exact ⟨hi.counted, fun call hok => served_of_inv hi hok.1 hok.2⟩

/-- Whether a call is valid and small, by evaluation. -/
def validCheck (slots : ℕ) (s : Pool) : Call → Bool
  | .alloc count => decide (1 ≤ count ∧ count < 2 ^ 31)
  | .dealloc slotIndex count => decide (1 ≤ count ∧ slotIndex + count ≤ slots ∧
      ∀ i < count, s.free (slotIndex + i) = false)

lemma validCheck_of (slots : ℕ) (s : Pool) (call : Call) (h : validCheck slots s call = true) :
    Valid slots s call ∧ Small call := by
  cases call with
  | alloc count =>
    obtain ⟨hpos, hlt⟩ : 1 ≤ count ∧ count < 2 ^ 31 := of_decide_eq_true h
    exact ⟨⟨hpos, by omega⟩, hlt⟩
  | dealloc slotIndex count =>
    have hvalid : 1 ≤ count ∧ slotIndex + count ≤ slots ∧
        ∀ i < count, s.free (slotIndex + i) = false := of_decide_eq_true h
    exact ⟨hvalid, trivial⟩

def emptyNode : RadixNode := ⟨0, 0, 0⟩

/-- A bitmap with two leaves: neither of them has room for another 20 slots, but part of the slots
that are given back can be used again. -/
theorem radix_bitmap_correct_forty :
    ∃ bmp, radixBitmapCreate (fun _ => emptyNode) 40 = some bmp ∧
      let s := outcome step ⟨bmp, allFree 40⟩ [.alloc 20, .alloc 20, .dealloc 4 10, .alloc 8]
      s.bmp.freeSlots = 22 ∧ s.free 12 = true ∧ s.free 11 = false ∧ Counted 40 s := by
  obtain ⟨bmp, heq, hruns⟩ := @radix_bitmap_correct 40 (fun _ => emptyNode) (by decide) (by decide)
  have hget : bmp = (radixBitmapCreate (fun _ => emptyNode) 40).getD
      ⟨0, 0, 0, ⟨0, fun _ => emptyNode⟩⟩ := by
    rw [heq, Option.getD_some]
  subst hget
  obtain ⟨hist, hr, -⟩ := run_outcome step (validCheck_of 40)
    ⟨(radixBitmapCreate (fun _ => emptyNode) 40).getD ⟨0, 0, 0, ⟨0, fun _ => emptyNode⟩⟩, allFree 40⟩
    [.alloc 20, .alloc 20, .dealloc 4 10, .alloc 8] (fun _ => true) (by decide)
  exact ⟨_, heq, by decide, by decide, by decide, (hruns hist _ hr).1⟩

/-- An allocation of `2 ^ 31` slots from a bitmap of 32 slots succeeds. -/
theorem radix_bitmap_overallocates :
    ¬∀ (memory : ℕ → RadixNode) (slots : ℕ), 1 ≤ slots → slots ≤ 2 ^ 29 →
      Correct memory slots (Valid slots) := by
  intro hall
  obtain ⟨bmp, heq, hruns⟩ := hall (fun _ => emptyNode) 32 (by decide) (by decide)
  have hserved := (hruns [] _ .nil).2 (.alloc (2 ^ 31)) ⟨by decide, by decide⟩
  obtain ⟨bmp', r, halloc, hres⟩ := hserved
  have hsome : (((radixBitmapCreate (fun _ => emptyNode) 32).bind fun bmp =>
      radixBitmapAlloc bmp (2 ^ 31)).map Prod.snd) = some (some 0) := by
    decide
  have halloc' : radixBitmapAlloc bmp (2 ^ 31) = some (bmp', r) := halloc
  rw [heq, Option.bind_some, halloc', Option.map_some] at hsome
  have hr : r = some 0 := Option.some.inj hsome
  subst hr
  omega

end Haiku.Radix
