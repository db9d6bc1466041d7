import Haiku.Lib.Run
import Mathlib.Data.UInt

/-!
# The list of swap files

`swap_file_add()`, `swap_file_delete()`, `swap_slot_alloc()` and `swap_slot_dealloc()` of
`src/system/kernel/vm/VMAnonymousCache.cpp`, with the pointer `sSwapFileAlloc` that goes round
the list.

* A pointer to a `swap_file` is an address; which address `malloc()` returns is an argument.
* What `radix_bitmap_alloc()` answers for each file is an argument as well. Of the bitmaps only
  the count of the free slots is kept.
* Where memory is read that is not there, the result is `none`.
-/

namespace Haiku.Swap.FileList

open Lib

/-- `B_PAGE_SIZE` -/
def pageSize : ℕ := 4096

/-- `SWAP_SLOT_NONE` -/
def slotNone : UInt32 := 0xffffffff

def bitmapRadix : UInt32 := 32

/-- `struct swap_file`, with the count of its bitmap. -/
structure SwapFile where
  address : ℕ
  vnode : ℕ
  firstSlot : UInt32
  lastSlot : UInt32
  freeSlots : UInt32
deriving DecidableEq

/-- The slots that the bitmap of the file stands for. -/
def SwapFile.hasSlot (f : SwapFile) (slot : UInt32) : Prop :=
  slot - f.firstSlot < f.lastSlot - f.firstSlot

/-- `sSwapFileList`, `sSwapFileAlloc` and `sSwapFileCount`. -/
structure State where
  files : List SwapFile
  alloc : Option ℕ
  count : ℕ

/-- After `swap_init()`. -/
def initial : State where
  files := []
  alloc := none
  count := 0

def State.find (s : State) (address : ℕ) : Option SwapFile :=
  s.files.find? fun f => f.address = address

def State.first (s : State) : Option ℕ := s.files.head?.map (·.address)

/-- `SwapFileList::GetNext()` -/
def next : List SwapFile → ℕ → Option ℕ
  | [], _ => none
  | f :: files, address =>
    if f.address = address then files.head?.map (·.address) else next files address

def State.setFree (s : State) (address : ℕ) (free : UInt32 → UInt32) : State :=
  { s with files := s.files.map fun f =>
      if f.address = address then { f with freeSlots := free f.freeSlots } else f }

/-- The loop of `swap_slot_alloc()`: the files that have been asked, and the slot. -/
def allocLoop (grants : ℕ → Option UInt32) (count : UInt32) :
    (rounds : ℕ) → State → (asked : List ℕ) → Option (State × List ℕ × Option UInt32)
  | 0, s, asked => some (s, asked, none)
  | rounds + 1, s, asked =>
    match (s.alloc.or s.first).bind s.find with
    | none => none
    | some f =>
      match grants f.address with
      | some slot =>
        some ({ s.setFree f.address (· - count) with alloc := some f.address },
          asked ++ [f.address], some (slot + f.firstSlot))
      | none =>
        -- this swap_file is full, find another
        allocLoop grants count rounds { s with alloc := next s.files f.address }
          (asked ++ [f.address])

/-- `swap_slot_alloc()`, with the files whose bitmaps have been asked. -/
def swapSlotAlloc (s : State) (grants : ℕ → Option UInt32) (count : UInt32) :
    Option (State × List ℕ × UInt32) :=
  if s.files = [] ∨ count > bitmapRadix then some (s, [], slotNone)
  else
    match allocLoop grants count s.count s [] with
    | none => none
    | some (s, asked, none) => some (s, asked, slotNone)
    | some (s, asked, some slot) =>
      match s.alloc.bind s.find with
      | none => none
      | some f =>
        -- if this swap file has used more than 90% percent of its space switch to another
        if f.freeSlots < (f.lastSlot - f.firstSlot) / 10
        then some ({ s with alloc := next s.files f.address }, asked, slot)
        else some (s, asked, slot)

def swapSlotDealloc (s : State) (slot count : UInt32) : Option State :=
  if slot = slotNone then some s
  else
    match s.files.find? fun f => slot ≥ f.firstSlot ∧ slot < f.lastSlot with
    | none => none
    | some f => some (s.setFree f.address (· + count))

/-- `swap_file_add()`, for a file that can be opened and has the given size. -/
def swapFileAdd (s : State) (address vnode size : ℕ) : State :=
  if size < pageSize then s
  else
    let pageCount : UInt32 := .ofNat (size / pageSize)
    let firstSlot := match s.files.getLast? with
      | none => 0
      | some last => last.lastSlot + 1
    { s with
      files := s.files ++ [⟨address, vnode, firstSlot, firstSlot + pageCount, pageCount⟩]
      count := s.count + 1 }

def swapFileDelete (s : State) (vnode : ℕ) : State :=
  match s.files.find? fun f => f.vnode = vnode with
  | none => s
  | some f =>
    -- if this file is currently used, we can't delete
    if f.freeSlots < f.lastSlot - f.firstSlot then s
    else { s with files := s.files.erase f, count := s.count - 1 }

inductive Call where
  | fileAdd (address vnode size : ℕ)
  | fileDelete (vnode : ℕ)
  | slotAlloc (grants : ℕ → Option UInt32) (count : UInt32)
  | slotDealloc (slot count : UInt32)

/-- One call. The address of a new file is not that of another one. -/
def step (s : State) : Call → Option State
  | .fileAdd address vnode size =>
    if address ∈ s.files.map (·.address) then none else some (swapFileAdd s address vnode size)
  | .fileDelete vnode => some (swapFileDelete s vnode)
  | .slotAlloc grants count => (swapSlotAlloc s grants count).map Prod.fst
  | .slotDealloc slot count => swapSlotDealloc s slot count

def State.Answers (s : State) (grants : ℕ → Option UInt32) (count : UInt32) : Prop :=
  ∀ f ∈ s.files, ∀ slot, grants f.address = some slot →
    slot.toNat + count.toNat ≤ (f.lastSlot - f.firstSlot).toNat

/-- What has to hold in every state: `sSwapFileAlloc` is null or a file of the list, the slots of
the files are different, and `swap_slot_alloc()` gives up only when all files have refused. -/
structure FilesRight (s : State) : Prop where
  pointer : ∀ address, s.alloc = some address → ∃ f ∈ s.files, f.address = address
  disjoint : s.files.Pairwise fun f g => ∀ slot, f.hasSlot slot → ¬g.hasSlot slot
  asked : ∀ grants count, 1 ≤ count → count ≤ bitmapRadix → s.Answers grants count →
    ∃ s' asked slot, swapSlotAlloc s grants count = some (s', asked, slot) ∧
      (slot = slotNone → ∀ f ∈ s.files, f.address ∈ asked ∧ grants f.address = none)

/-- When a call does what is expected: a file that is added does not bring the slots beyond 32
bits, and a file that is deleted is not the one that `sSwapFileAlloc` refers to. -/
def CallOk (s : State) : Call → Prop
  | .fileAdd _ _ size => pageSize ≤ size → ∀ last ∈ s.files.getLast?,
    last.lastSlot.toNat + 1 + size / pageSize % 2 ^ 32 < 2 ^ 32
  | .fileDelete vnode => ∀ f ∈ s.files.find? fun f => f.vnode = vnode,
    ¬f.freeSlots < f.lastSlot - f.firstSlot → s.alloc ≠ some f.address
  | _ => True

/-!
## Going round the list of swap files

The loop of `swap_slot_alloc()` asks the files from `sSwapFileAlloc` to the end of the list, and
then those from its beginning on. What holds in all states that the calls lead to.
-/

variable {s s' : State} {f : SwapFile} {pre mid post : List SwapFile}

/-- The pointer to the first file of a list, which is null for the empty one. -/
def pointerTo (files : List SwapFile) : Option ℕ := files.head?.map (·.address)

structure FilesOk (s : State) : Prop where
  addresses : (s.files.map (·.address)).Nodup
  pointer : ∀ address, s.alloc = some address → ∃ f ∈ s.files, f.address = address
  count : s.count = s.files.length
  slots : ∀ f ∈ s.files, f.firstSlot ≤ f.lastSlot
  ordered : s.files.Pairwise fun f g => f.lastSlot < g.firstSlot

/-! ## The list -/

lemma find_eq (h : (s.files.map (·.address)).Nodup) (hf : f ∈ s.files) :
    s.find f.address = some f := by
  unfold State.find
  rw [List.find?_eq_some_iff_append]
  obtain ⟨pre, post, hsplit⟩ := List.append_of_mem hf
  refine ⟨decide_eq_true rfl, pre, post, hsplit, fun g hg => ?_⟩
  rw [hsplit, List.map_append, List.nodup_append] at h
  have hne := h.2.2 g.address (List.mem_map_of_mem hg) f.address
    (List.mem_map_of_mem List.mem_cons_self)
  simpa using hne

lemma next_eq (h : ((pre ++ f :: post).map (·.address)).Nodup) :
    next (pre ++ f :: post) f.address = pointerTo post := by
  induction pre with
  | nil => exact if_pos rfl
  | cons g pre ih =>
    rw [List.cons_append, List.map_cons, List.nodup_cons] at h
    have hne : g.address ≠ f.address := by
      intro heq
      apply h.1
      rw [heq]
      exact List.mem_map_of_mem (List.mem_append_right _ List.mem_cons_self)
    rw [List.cons_append, next, if_neg hne]
    exact ih h.2

lemma next_mem (h : (s.files.map (·.address)).Nodup) (hf : f ∈ s.files) {address : ℕ}
    (hnext : next s.files f.address = some address) : ∃ g ∈ s.files, g.address = address := by
  obtain ⟨pre, post, hsplit⟩ := List.append_of_mem hf
  rw [hsplit] at h hnext ⊢
  rw [next_eq h] at hnext
  cases post with
  | nil => cases hnext
  | cons g post =>
    refine ⟨g, List.mem_append_right _ (List.mem_cons_of_mem _ List.mem_cons_self), ?_⟩
    exact Option.some.inj hnext

/-! ## The count of a file changes -/

lemma setFree_files_map {α : Type} (g : SwapFile → α) (address : ℕ) (free : UInt32 → UInt32)
    (hg : ∀ f : SwapFile, ∀ n, g { f with freeSlots := n } = g f) :
    (s.setFree address free).files.map g = s.files.map g := by
  unfold State.setFree
  rw [List.map_map]
  apply List.map_congr_left
  intro f _
  show g (if f.address = address then _ else f) = g f
  split
  · exact hg f _
  · rfl

lemma FilesOk.setFree (h : FilesOk s) (address : ℕ) (free : UInt32 → UInt32) :
    FilesOk (s.setFree address free) := by
  have hmem : ∀ f ∈ (s.setFree address free).files, ∃ f' ∈ s.files, f.address = f'.address ∧
      f.firstSlot = f'.firstSlot ∧ f.lastSlot = f'.lastSlot := by
    intro f hf
    obtain ⟨f', hf', rfl⟩ := List.mem_map.1 hf
    refine ⟨f', hf', ?_⟩
    split <;> exact ⟨rfl, rfl, rfl⟩
  refine ⟨?_, fun a ha => ?_, ?_, fun f hf => ?_, ?_⟩
  · rw [setFree_files_map _ _ _ fun _ _ => rfl]
    exact h.addresses
  · obtain ⟨f, hf, rfl⟩ := h.pointer a ha
    refine ⟨_, List.mem_map_of_mem hf, ?_⟩
    split <;> rfl
  · exact h.count.trans (List.length_map _).symm
  · obtain ⟨f', hf', -, hfirst, hlast⟩ := hmem f hf
    rw [hfirst, hlast]
    exact h.slots f' hf'
  · show (s.files.map _).Pairwise _
    rw [List.pairwise_map]
    apply h.ordered.imp
    intro f g hlt
    split <;> split <;> exact hlt

lemma FilesOk.setAlloc (h : FilesOk s) {alloc : Option ℕ}
    (halloc : ∀ address, alloc = some address → ∃ f ∈ s.files, f.address = address) :
    FilesOk { s with alloc := alloc } :=
  ⟨h.addresses, halloc, h.count, h.slots, h.ordered⟩

/-! ## `swap_slot_alloc()` -/

def Granted (s : State) (grants : ℕ → Option UInt32) (count : UInt32)
    (r : Option (State × List ℕ × Option UInt32)) : Prop :=
  ∃ f ∈ s.files, ∃ slot asked, grants f.address = some slot ∧
    r = some ({ s.setFree f.address (· - count) with alloc := some f.address }, asked,
      some (slot + f.firstSlot))

variable (post) in
section

variable (grants : ℕ → Option UInt32)
include grants

lemma allocLoop_segment (count : UInt32) (rounds : ℕ) :
    ∀ (mid pre : List SwapFile) (s : State) (asked : List ℕ),
      (s.files.map (·.address)).Nodup → s.files = pre ++ mid ++ post →
      s.alloc = pointerTo (mid ++ post) →
      Granted s grants count (allocLoop grants count (mid.length + rounds) s asked) ∨
        (∀ f ∈ mid, grants f.address = none) ∧
          allocLoop grants count (mid.length + rounds) s asked =
            allocLoop grants count rounds { s with alloc := pointerTo post }
              (asked ++ mid.map (·.address)) := by
  intro mid
  induction mid with
  | nil =>
    intro pre s asked _ _ halloc
    refine .inr ⟨fun f hf => absurd hf List.not_mem_nil, ?_⟩
    rw [List.map_nil, List.append_nil, List.length_nil, Nat.zero_add]
    rw [List.nil_append] at halloc
    rw [← halloc]
  | cons f mid ih =>
    intro pre s asked hnodup hfiles halloc
    have hf : f ∈ s.files := by
      rw [hfiles]
      exact List.mem_append_left _ (List.mem_append_right _ List.mem_cons_self)
    have hsplit : s.files = pre ++ f :: (mid ++ post) := by
      rw [hfiles, List.append_assoc, List.cons_append]
    have hfind : (s.alloc.or s.first).bind s.find = some f := by
      rw [halloc]
      exact find_eq hnodup hf
    rw [List.length_cons, Nat.succ_add, allocLoop, hfind]
    dsimp only
    cases hgrant : grants f.address with
    | some slot => exact .inl ⟨f, hf, slot, _, hgrant, rfl⟩
    | none =>
      dsimp only
      have hnext : next s.files f.address = pointerTo (mid ++ post) := by
        rw [hsplit] at hnodup ⊢
        exact next_eq hnodup
      rw [hnext]
      rcases ih (pre ++ [f]) { s with alloc := pointerTo (mid ++ post) } (asked ++ [f.address])
          hnodup (by rw [hsplit, List.append_assoc, List.append_assoc]; rfl) rfl with
        ⟨g, hg, slot, asked', hslot, hr⟩ | ⟨hrefuse, hr⟩
      · exact .inl ⟨g, hg, slot, asked', hslot, hr⟩
      · refine .inr ⟨List.forall_mem_cons.2 ⟨hgrant, hrefuse⟩, ?_⟩
        rw [hr, List.map_cons, List.append_assoc, List.singleton_append]

lemma allocLoop_first (count : UInt32) (rounds : ℕ) (s : State)
    (asked : List ℕ) (halloc : s.alloc = none) : allocLoop grants count (rounds + 1) s asked =
      allocLoop grants count (rounds + 1) { s with alloc := pointerTo s.files } asked := by
  rw [allocLoop, allocLoop, halloc, Option.none_or]
  have hor : (pointerTo s.files).or s.first = s.first := by
    unfold pointerTo State.first
    cases s.files.head? <;> rfl
  show _ = match ((pointerTo s.files).or s.first).bind s.find with | none => _ | some f => _
  rw [hor]
  rfl

lemma allocLoop_spec (count : UInt32) (h : FilesOk s) (hne : s.files ≠ []) :
    Granted s grants count (allocLoop grants count s.files.length s []) ∨
      (∀ f ∈ s.files, grants f.address = none) ∧
        ∃ alloc asked, allocLoop grants count s.files.length s [] =
            some ({ s with alloc := alloc }, asked, none) ∧
          (∀ address, alloc = some address → ∃ f ∈ s.files, f.address = address) ∧
          ∀ f ∈ s.files, f.address ∈ asked := by
  -- Where the pointer stands.
  obtain ⟨pre, mid, hfiles, hmid, hstart⟩ : ∃ pre mid, s.files = pre ++ mid ∧ mid ≠ [] ∧
      allocLoop grants count s.files.length s [] =
        allocLoop grants count s.files.length { s with alloc := pointerTo mid } [] := by
    cases halloc : s.alloc with
    | none =>
      refine ⟨[], s.files, rfl, hne, ?_⟩
      have hpos := List.length_pos_of_ne_nil hne
      have hfirst := allocLoop_first grants count (s.files.length - 1) s [] halloc
      rwa [Nat.sub_add_cancel hpos] at hfirst
    | some address =>
      obtain ⟨f, hf, rfl⟩ := h.pointer address halloc
      obtain ⟨pre, post, hsplit⟩ := List.append_of_mem hf
      refine ⟨pre, f :: post, hsplit, List.cons_ne_nil _ _, ?_⟩
      have hpointer : pointerTo (f :: post) = s.alloc := halloc.symm
      rw [hpointer]
  have hcount : s.files.length = mid.length + pre.length := by
    rw [hfiles, List.length_append, Nat.add_comm]
  rw [hstart, hcount]
  rcases allocLoop_segment [] grants count pre.length mid pre
      { s with alloc := pointerTo mid } [] h.addresses (by rw [List.append_nil]; exact hfiles)
      (by rw [List.append_nil]) with
    ⟨f, hf, slot, asked, hslot, hr⟩ | ⟨hrefuse, hr⟩
  · exact .inl ⟨f, hf, slot, asked, hslot, hr⟩
  · rw [hr]
    -- Behind the end of the list, the pointer is null.
    have hwrap : allocLoop grants count pre.length
          { { s with alloc := pointerTo mid } with alloc := pointerTo [] }
          ([] ++ mid.map (·.address)) =
        allocLoop grants count pre.length
          { s with alloc := if pre = [] then none else pointerTo (pre ++ mid) }
          (mid.map (·.address)) := by
      cases hpre : pre with
      | nil =>
        rw [if_pos rfl]
        rfl
      | cons f pre' =>
        rw [if_neg (List.cons_ne_nil _ _), List.length_cons, ← hpre, ← hfiles, List.nil_append]
        exact allocLoop_first grants count pre'.length { s with alloc := none } _ rfl
    rw [hwrap]
    cases hpre : pre with
    | nil =>
      refine .inr ⟨fun f hf => ?_, none, mid.map (·.address), rfl,
        fun a ha => absurd ha (Option.some_ne_none a).symm, fun f hf => ?_⟩
      · rw [hfiles, hpre] at hf
        exact hrefuse f hf
      · rw [hfiles, hpre] at hf
        exact List.mem_map_of_mem hf
    | cons g pre' =>
      rw [← hpre, if_neg (by rw [hpre]; exact List.cons_ne_nil _ _)]
      rcases allocLoop_segment mid grants count 0 pre []
          { s with alloc := pointerTo (pre ++ mid) } (mid.map (·.address)) h.addresses hfiles
          rfl with
        ⟨f, hf, slot, asked, hslot, hr'⟩ | ⟨hrefuse', hr'⟩
      · exact .inl ⟨f, hf, slot, asked, hslot, hr'⟩
      · refine .inr ⟨fun f hf => ?_, pointerTo mid, mid.map (·.address) ++ pre.map (·.address),
          hr', fun a ha => ?_, fun f hf => ?_⟩
        · rw [hfiles] at hf
          exact (List.mem_append.1 hf).elim (hrefuse' f) (hrefuse f)
        · cases hm : mid with
          | nil => exact absurd hm hmid
          | cons f mid' =>
            rw [hm] at ha
            refine ⟨f, ?_, Option.some.inj ha⟩
            rw [hfiles, hm]
            exact List.mem_append_right _ List.mem_cons_self
        · rw [hfiles] at hf
          rw [List.mem_append]
          exact (List.mem_append.1 hf).elim (fun hf => .inr (List.mem_map_of_mem hf))
            (fun hf => .inl (List.mem_map_of_mem hf))

end

lemma swapSlotAlloc_spec (h : FilesOk s) (grants : ℕ → Option UInt32) (count : UInt32) :
    ∃ s' asked slot, swapSlotAlloc s grants count = some (s', asked, slot) ∧ FilesOk s' ∧
      (count ≤ bitmapRadix →
        (∃ f ∈ s.files, ∃ free, grants f.address = some free ∧ slot = free + f.firstSlot) ∨
          ∀ f ∈ s.files, f.address ∈ asked ∧ grants f.address = none) := by
  unfold swapSlotAlloc
  by_cases hnone : s.files = [] ∨ count > bitmapRadix
  · rw [if_pos hnone]
    refine ⟨s, [], slotNone, rfl, h, fun hle => .inr fun f hf => ?_⟩
    rcases hnone with hempty | hlarge
    · rw [hempty] at hf
      exact absurd hf List.not_mem_nil
    · exact absurd hle (UInt32.not_le.2 hlarge)
  · rw [if_neg hnone, h.count]
    rcases allocLoop_spec grants count h fun hempty => hnone (.inl hempty) with
      ⟨f, hf, free, asked, hfree, hr⟩ | ⟨hrefuse, alloc, asked, hr, halloc, hall⟩
    · rw [hr]
      dsimp only
      have hmem : ∃ g ∈ (s.setFree f.address (· - count)).files, g.address = f.address := by
        refine ⟨_, List.mem_map_of_mem hf, ?_⟩
        split <;> rfl
      have hok : FilesOk { s.setFree f.address (· - count) with alloc := some f.address } := by
        refine (h.setFree f.address (· - count)).setAlloc fun a ha => ?_
        rw [← Option.some.inj ha]
        exact hmem
      obtain ⟨g, hg, haddress⟩ := hmem
      have hfind : (some f.address).bind
          ({ s.setFree f.address (· - count) with alloc := some f.address } : State).find =
          some g := by
        have hg' := find_eq hok.addresses hg
        rwa [haddress] at hg'
      rw [hfind]
      dsimp only
      have hslot : count ≤ bitmapRadix →
          (∃ f' ∈ s.files, ∃ free', grants f'.address = some free' ∧
            free + f.firstSlot = free' + f'.firstSlot) ∨
          ∀ f' ∈ s.files, f'.address ∈ asked ∧ grants f'.address = none :=
        fun _ => .inl ⟨f, hf, free, hfree, rfl⟩
      split
      · exact ⟨_, asked, _, rfl, hok.setAlloc fun a ha => next_mem hok.addresses hg ha, hslot⟩
      · exact ⟨_, asked, _, rfl, hok, hslot⟩
    · rw [hr]
      exact ⟨_, asked, slotNone, rfl, h.setAlloc halloc, fun _ => .inr fun f hf =>
        ⟨hall f hf, hrefuse f hf⟩⟩

/-! ## All calls -/

lemma hasSlot_iff (h : f.firstSlot ≤ f.lastSlot) (slot : UInt32) :
    f.hasSlot slot ↔ f.firstSlot ≤ slot ∧ slot < f.lastSlot := by
  unfold SwapFile.hasSlot
  rw [UInt32.lt_iff_toNat_lt, UInt32.le_iff_toNat_le, UInt32.lt_iff_toNat_lt, UInt32.toNat_sub,
    UInt32.toNat_sub]
  rw [UInt32.le_iff_toNat_le] at h
  have hfirst := f.firstSlot.toNat_lt
  have hlast := f.lastSlot.toNat_lt
  have hslot := slot.toNat_lt
  omega

lemma FilesOk.right (h : FilesOk s) : FilesRight s := by
  refine ⟨h.pointer, ?_, fun grants count hpos hle hanswers => ?_⟩
  · refine h.ordered.imp_of_mem fun {f g} hf hg hlt slot hslot hslot' => ?_
    rw [hasSlot_iff (h.slots f hf)] at hslot
    rw [hasSlot_iff (h.slots g hg)] at hslot'
    rw [UInt32.lt_iff_toNat_lt] at hlt hslot
    rw [UInt32.le_iff_toNat_le] at hslot'
    omega
  · obtain ⟨s', asked, slot, hr, -, hspec⟩ := swapSlotAlloc_spec h grants count
    refine ⟨s', asked, slot, hr, fun hslot => ?_⟩
    rcases hspec hle with ⟨f, hf, free, hfree, heq⟩ | hall
    · -- A slot of a file is less than its last one.
      have hin := hanswers f hf free hfree
      have hslots := h.slots f hf
      rw [UInt32.le_iff_toNat_le] at hpos hslots
      rw [UInt32.toNat_sub] at hin
      have hnone := congrArg UInt32.toNat (heq.symm.trans hslot)
      rw [UInt32.toNat_add] at hnone
      have hlast := f.lastSlot.toNat_lt
      change _ = 4294967295 at hnone
      change 1 ≤ _ at hpos
      omega
    · exact hall

lemma FilesOk.le_last (h : FilesOk s) {last : SwapFile} (hlast : s.files.getLast? = some last)
    (hf : f ∈ s.files) : f.lastSlot ≤ last.lastSlot := by
  obtain ⟨files, hfiles⟩ := List.getLast?_eq_some_iff.1 hlast
  have hordered := h.ordered
  have hmem : last ∈ s.files := by
    rw [hfiles]
    exact List.mem_append_right _ List.mem_cons_self
  rw [hfiles, List.pairwise_append] at hordered
  rw [hfiles] at hf
  rcases List.mem_append.1 hf with hf | hf
  · have hlt := hordered.2.2 f hf last List.mem_cons_self
    have hslots := h.slots last hmem
    exact UInt32.le_trans (UInt32.le_of_lt hlt) hslots
  · rw [List.mem_singleton.1 hf]
    exact UInt32.le_refl _

lemma FilesOk.add (h : FilesOk s) {new : SwapFile}
    (haddress : new.address ∉ s.files.map (·.address)) (hslots : new.firstSlot ≤ new.lastSlot)
    (hlast : ∀ f ∈ s.files, f.lastSlot < new.firstSlot) :
    FilesOk { s with files := s.files ++ [new], count := s.count + 1 } := by
  refine ⟨?_, fun a ha => ?_, ?_, fun f hf => ?_, ?_⟩
  · rw [List.map_append, List.map_singleton]
    exact h.addresses.append (List.nodup_singleton _) (List.disjoint_singleton.2 haddress)
  · obtain ⟨f, hf, rfl⟩ := h.pointer a ha
    exact ⟨f, List.mem_append_left _ hf, rfl⟩
  · show s.count + 1 = (s.files ++ [new]).length
    rw [h.count, List.length_append, List.length_singleton]
  · rcases List.mem_append.1 hf with hf | hf
    · exact h.slots f hf
    · rw [List.mem_singleton.1 hf]
      exact hslots
  · show (s.files ++ [new]).Pairwise _
    rw [List.pairwise_append]
    refine ⟨h.ordered, List.pairwise_singleton _ _, fun f hf g hg => ?_⟩
    rw [List.mem_singleton.1 hg]
    exact hlast f hf

lemma swapFileAdd_ok {address vnode size : ℕ} (h : FilesOk s)
    (haddress : address ∉ s.files.map (·.address)) (hok : CallOk s (.fileAdd address vnode size)) :
    FilesOk (swapFileAdd s address vnode size) := by
  unfold swapFileAdd
  split
  · exact h
  · next hsize =>
    have hok := hok (Nat.not_lt.1 hsize)
    dsimp only
    cases hlast : s.files.getLast? with
    | none =>
      refine h.add haddress ?_ fun f hf => ?_
      · show (0 : UInt32) ≤ _
        exact UInt32.zero_le
      · rw [List.getLast?_eq_none_iff] at hlast
        rw [hlast] at hf
        exact absurd hf List.not_mem_nil
    | some last =>
      have hfits := hok last hlast
      have hfirst : (last.lastSlot + 1).toNat = last.lastSlot.toNat + 1 := by
        rw [UInt32.toNat_add]
        exact Nat.mod_eq_of_lt (by change last.lastSlot.toNat + 1 < _; omega)
      have hcount : (UInt32.ofNat (size / pageSize)).toNat = size / pageSize % 2 ^ 32 :=
        UInt32.toNat_ofNat'
      refine h.add haddress ?_ fun f hf => ?_
      · show last.lastSlot + 1 ≤ last.lastSlot + 1 + UInt32.ofNat (size / pageSize)
        rw [UInt32.le_iff_toNat_le, UInt32.toNat_add (last.lastSlot + 1), hfirst, hcount,
          Nat.mod_eq_of_lt hfits]
        exact Nat.le_add_right _ _
      · have hle := h.le_last hlast hf
        show f.lastSlot < last.lastSlot + 1
        rw [UInt32.le_iff_toNat_le] at hle
        rw [UInt32.lt_iff_toNat_lt, hfirst]
        omega

lemma swapFileDelete_ok {vnode : ℕ} (h : FilesOk s) (hok : CallOk s (.fileDelete vnode)) :
    FilesOk (swapFileDelete s vnode) := by
  unfold swapFileDelete
  cases hfind : s.files.find? fun f => f.vnode = vnode with
  | none => exact h
  | some f =>
    dsimp only
    split
    · exact h
    · next hfree =>
      have hne := hok f hfind hfree
      have hf := List.mem_of_find?_eq_some hfind
      have hsub : (s.files.erase f).Sublist s.files := List.erase_sublist
      refine ⟨h.addresses.sublist (hsub.map _), fun a ha => ?_, ?_, fun g hg => ?_,
        h.ordered.sublist hsub⟩
      · obtain ⟨g, hg, rfl⟩ := h.pointer a ha
        refine ⟨g, ?_, rfl⟩
        apply (List.mem_erase_of_ne ?_).2 hg
        rintro rfl
        exact hne ha
      · show s.count - 1 = (s.files.erase f).length
        rw [List.length_erase_of_mem hf, h.count]
      · exact h.slots g (hsub.subset hg)

lemma step_ok {call : Call} (h : FilesOk s) (hok : CallOk s call)
    (hstep : step s call = some s') : FilesOk s' := by
  cases call with
  | fileAdd address vnode size =>
    obtain ⟨haddress, hs'⟩ := Option.ite_none_left_eq_some.1 hstep
    rw [← Option.some.inj hs']
    exact swapFileAdd_ok h haddress hok
  | fileDelete vnode =>
    rw [← Option.some.inj hstep]
    exact swapFileDelete_ok h hok
  | slotAlloc grants count =>
    obtain ⟨s₁, asked, slot, hr, hs₁, -⟩ := swapSlotAlloc_spec h grants count
    change (swapSlotAlloc s grants count).map Prod.fst = some s' at hstep
    rw [hr] at hstep
    rw [← Option.some.inj hstep]
    exact hs₁
  | slotDealloc slot count =>
    change swapSlotDealloc s slot count = some s' at hstep
    unfold swapSlotDealloc at hstep
    split at hstep
    · rw [← Option.some.inj hstep]
      exact h
    · split at hstep
      · cases hstep
      · rw [← Option.some.inj hstep]
        exact h.setFree _ _

/-- In every run whose calls meet their conditions, the list of swap files is right. -/
theorem files_right {hist : History State Call} (h : Run step CallOk initial hist s) :
    FilesRight s := by
  have hinitial : FilesOk initial :=
    ⟨List.nodup_nil, fun a ha => absurd ha (Option.some_ne_none a).symm, rfl,
      fun f hf => absurd hf List.not_mem_nil, List.Pairwise.nil⟩
  exact (h.invariant hinitial step_ok).right

/-- Two files are added, and a slot of the first one is allocated. -/
def twoFiles : List Call :=
  [.fileAdd 1 10 40960, .fileAdd 2 20 8192, .slotAlloc (fun _ => some 3) 1]

theorem files_right_two : FilesRight (outcome step initial twoFiles) := by
  have hfirst : CallOk initial (.fileAdd 1 10 40960) := fun _ last hlast => by cases hlast
  have hsecond : CallOk (swapFileAdd initial 1 10 40960) (.fileAdd 2 20 8192) := by
    intro _ last hlast
    obtain rfl := Option.some.inj hlast
    decide
  have hthird : CallOk (swapFileAdd (swapFileAdd initial 1 10 40960) 2 20 8192)
      (.slotAlloc (fun _ => some 3) 1) := trivial
  exact files_right (.snoc (.snoc (.snoc .nil hfirst rfl) hsecond rfl) hthird rfl)

/-- The file that `sSwapFileAlloc` refers to is deleted, after its slot has been given back. -/
theorem not_files_right : ¬∀ (hist : History State Call) (s : State),
    Run step (fun _ _ => True) initial hist s → FilesRight s := by
  intro h
  obtain ⟨hist, hrun, -⟩ := @run_outcome _ _ (fun _ _ => True) step (fun _ _ => true)
    (fun _ _ _ => trivial) initial (twoFiles ++ [.slotDealloc 3 1, .fileDelete 10])
    (fun _ => true) (by decide)
  obtain ⟨f, hf, haddress⟩ := (h hist _ hrun).pointer 1 (by decide)
  have hall : ∀ f ∈ (outcome step initial
      (twoFiles ++ [.slotDealloc 3 1, .fileDelete 10])).files, f.address ≠ 1 := by
    decide
  exact hall f hf haddress

end Haiku.Swap.FileList
