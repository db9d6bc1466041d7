import Mathlib.Data.Fintype.Card

/-!
# Queues with the last pointer in the first element

A singly linked queue of waiters whose elements lie in the stack frames of the waiting threads:
each element points to the next one, and the first element also points to the last. The pointers
of elements that are not in the queue are arbitrary.

* `Waiters.enqueue`, `Waiters.dequeue` and `Waiters.remove` are the pointer operations;
* `Waiters.Holds q l` says that the queue holds the elements `l`, in this order, and that the last
  pointer is right. Each operation has one lemma that says what it does to the list.
-/

namespace Haiku.Lib

open Function

variable {ι : Type}

structure Waiters (ι : Type) where
  /-- the first element -/
  head : Option ι
  next : ι → Option ι
  /-- only meaningful in the first element -/
  last : ι → ι

namespace Waiters

def empty : Waiters ι where
  head := none
  next := fun _ => none
  last := id

section

variable [DecidableEq ι]

/-- Appends an element, whose own pointers are set first. -/
def enqueue (q : Waiters ι) (i : ι) : Waiters ι :=
  let next := update q.next i none
  match q.head with
  | some h =>
    { head := some h
      next := update next (q.last h) (some i)
      last := update q.last h i }
  | none => { head := some i, next := next, last := update q.last i i }

/-- Removes the first element `h`; the next one takes over its last pointer. -/
def dequeue (q : Waiters ι) (h : ι) : Waiters ι :=
  match q.next h with
  | some n => { q with head := some n, last := update q.last n (q.last h) }
  | none => { q with head := none }

/-- The walk to the element `i`: the element before it and the element found. The number bounds
the steps of the walk. -/
def find (next : ι → Option ι) (i : ι) : ℕ → Option ι → Option ι → Option ι × Option ι
  | 0, previous, other => (previous, other)
  | fuel + 1, previous, other =>
    match other with
    | none => (previous, none)
    | some o => if o = i then (previous, some o) else find next i fuel (some o) (next o)

/-- Removes the element `i` from anywhere in the queue; `false` if it is not there. -/
def remove [Fintype ι] (q : Waiters ι) (i : ι) : Waiters ι × Bool :=
  match find q.next i (Fintype.card ι + 1) none q.head with
  | (_, none) => (q, false)
  | (previous, some _) =>
    if q.head = some i then
      let last := match q.next i with
        | some n => update q.last n (q.last i)
        | none => q.last
      ({ q with head := q.next i, last := last }, true)
    else
      match q.head, previous with
      | some h, some p =>
        let last := if q.next i = none then update q.last h p else q.last
        ({ q with next := update q.next p (q.next i), last := last }, true)
      | _, _ => (q, false)

end

/-! ## What a queue holds -/

/-- The elements reached from a pointer, up to a given end. -/
def Chain (next : ι → Option ι) : Option ι → List ι → Option ι → Prop
  | o, [], e => o = e
  | o, i :: l, e => o = some i ∧ Chain next (next i) l e

structure Holds (q : Waiters ι) (l : List ι) : Prop where
  chain : Chain q.next q.head l none
  nodup : l.Nodup
  last : ∀ h, q.head = some h → l.getLast? = some (q.last h)

variable {next next' : ι → Option ι} {o e : Option ι} {q : Waiters ι} {l l' : List ι} {i h : ι}

lemma chain_append : Chain next o (l ++ l') e ↔ ∃ m, Chain next o l m ∧ Chain next m l' e := by
  induction l generalizing o with
  | nil => simp [Chain]
  | cons i l ih =>
    constructor
    · rintro ⟨ho, hc⟩
      obtain ⟨m, hl, hl'⟩ := ih.1 hc
      exact ⟨m, ⟨ho, hl⟩, hl'⟩
    · rintro ⟨m, ⟨ho, hl⟩, hl'⟩
      exact ⟨ho, ih.2 ⟨m, hl, hl'⟩⟩

lemma chain_concat : Chain next o (l ++ [i]) e ↔ Chain next o l (some i) ∧ next i = e := by
  rw [chain_append]
  simp [Chain]

lemma Chain.congr (hc : Chain next o l e) (h : ∀ i ∈ l, next' i = next i) :
    Chain next' o l e := by
  induction l generalizing o with
  | nil => exact hc
  | cons i l ih =>
    refine ⟨hc.1, ?_⟩
    rw [h i List.mem_cons_self]
    exact ih hc.2 fun j hj => h j (List.mem_cons_of_mem _ hj)

lemma Chain.head_eq (hc : Chain next o l none) : o = l.head? := by
  cases l with
  | nil => exact hc
  | cons i l => exact hc.1

lemma Holds.head_eq (hq : q.Holds l) : q.head = l.head? := hq.chain.head_eq

lemma holds_empty : (empty : Waiters ι).Holds [] :=
  ⟨rfl, List.nodup_nil, fun _ h => (by cases h)⟩

lemma Holds.split_last (hq : q.Holds l) (hh : q.head = some h) :
    ∃ l', l = l' ++ [q.last h] := by
  have hlast := hq.last h hh
  exact ⟨l.dropLast, (List.dropLast_append_getLast? _ hlast).symm⟩

lemma Holds.length_lt [Fintype ι] (hq : q.Holds l) : l.length < Fintype.card ι + 1 :=
  Nat.lt_succ_of_le hq.nodup.length_le_card

variable [DecidableEq ι]

lemma Holds.enqueue (hq : q.Holds l) (hi : i ∉ l) : (q.enqueue i).Holds (l ++ [i]) := by
  have hnodup : (l ++ [i]).Nodup := by
    rw [List.nodup_append]
    exact ⟨hq.nodup, List.nodup_singleton i, fun a ha b hb he => hi (by
      rw [List.mem_singleton.1 hb] at he
      exact he ▸ ha)⟩
  cases hh : q.head with
  | none =>
    have hl : l = [] := by
      have := hq.head_eq
      rw [hh] at this
      exact List.head?_eq_none_iff.1 this.symm
    subst hl
    simp only [Waiters.enqueue, hh]
    exact ⟨⟨rfl, by simp [Chain]⟩, hnodup, fun h he => by cases he; simp⟩
  | some h =>
    obtain ⟨l', rfl⟩ := hq.split_last hh
    -- the element that was last points to the new one, whose own pointer ends the chain
    have hlast : q.last h ≠ i := fun he => hi (by simp [← he])
    have hnotin : q.last h ∉ l' := by
      have := hq.nodup
      rw [List.nodup_append] at this
      exact fun hm => this.2.2 _ hm _ (by simp) rfl
    have hc := chain_concat.1 hq.chain
    simp only [Waiters.enqueue, hh]
    refine ⟨?_, hnodup, fun h' he => by cases he; simp⟩
    rw [chain_concat, chain_concat]
    refine ⟨⟨?_, update_self _ _ _⟩, ?_⟩
    · rw [hh] at hc
      apply hc.1.congr
      intro j hj
      have hji : j ≠ i := fun he => hi (by simp [← he, hj])
      have hjl : j ≠ q.last h := fun he => hnotin (he ▸ hj)
      show update (update q.next i none) (q.last h) (some i) j = q.next j
      rw [update_of_ne hjl, update_of_ne hji]
    · show update (update q.next i none) (q.last h) (some i) i = none
      rw [update_of_ne hlast.symm, update_self]

lemma Holds.dequeue (hq : q.Holds (h :: l)) : (q.dequeue h).Holds l := by
  obtain ⟨hhead, hc⟩ := hq.chain
  have hnodup := (List.nodup_cons.1 hq.nodup).2
  have hlast := hq.last h hhead
  cases hn : q.next h with
  | none =>
    rw [hn] at hc
    have hl : l = [] := by
      cases l with
      | nil => rfl
      | cons i l => cases hc.1
    subst hl
    simp only [Waiters.dequeue, hn]
    exact ⟨rfl, hnodup, fun _ he => (by cases he)⟩
  | some n =>
    rw [hn] at hc
    simp only [Waiters.dequeue, hn]
    refine ⟨hc, hnodup, fun h' he => ?_⟩
    cases he
    cases l with
    | nil => cases hc
    | cons i l =>
      cases hc.1
      show (n :: l).getLast? = some (update q.last n (q.last h) n)
      rw [update_self, ← hlast, List.getLast?_cons_cons]

/-! ## Removing an element -/

lemma find_of_mem {n : ℕ} (p : Option ι) {as bs : List ι}
    (hc : Chain next o (as ++ i :: bs) none) (hi : i ∉ as) (hf : as.length < n) :
    find next i n p o = (as.getLast?.or p, some i) := by
  induction as generalizing o p n with
  | nil =>
    cases n with
    | zero => exact absurd hf (Nat.not_lt_zero _)
    | succ n => simp [find, hc.1]
  | cons a as ih =>
    cases n with
    | zero => exact absurd hf (Nat.not_lt_zero _)
    | succ n =>
      have ha : a ≠ i := fun he => hi (he ▸ List.mem_cons_self)
      have hf' : as.length < n := Nat.lt_of_succ_lt_succ hf
      rw [hc.1, find]
      simp only [ha, if_false]
      rw [ih (some a) hc.2 (fun h => hi (List.mem_cons_of_mem _ h)) hf']
      cases as with
      | nil => rfl
      | cons b as => simp [List.getLast?_cons]

variable [Fintype ι]

lemma Holds.remove_first (hq : q.Holds (i :: l)) :
    (q.remove i).2 = true ∧ (q.remove i).1.Holds l := by
  have hfind : find q.next i (Fintype.card ι + 1) none q.head = (none, some i) :=
    find_of_mem none (List.nil_append (i :: l) ▸ hq.chain) List.not_mem_nil (Nat.succ_pos _)
  have hdeq := hq.dequeue
  have hhead : q.head = some i := hq.chain.1
  have heq : q.remove i = (q.dequeue i, true) := by
    rw [remove, hfind]
    simp only [hhead, if_true, Waiters.dequeue]
    cases q.next i <;> rfl
  rw [heq]
  exact ⟨rfl, hdeq⟩

lemma Holds.remove_later {as bs : List ι} {p : ι} (hq : q.Holds (as ++ p :: i :: bs)) :
    (q.remove i).2 = true ∧ (q.remove i).1.Holds (as ++ p :: bs) := by
  have hnodup := hq.nodup
  have hsplit : as ++ p :: i :: bs = (as ++ [p]) ++ i :: bs := by simp
  have hi : i ∉ as ++ [p] := by
    rw [hsplit, List.nodup_append] at hnodup
    exact fun hm => hnodup.2.2 i hm i List.mem_cons_self rfl
  have hlen := hq.length_lt
  have hchain := hq.chain
  rw [hsplit] at hchain hlen
  have hfuel : (as ++ [p]).length < Fintype.card ι + 1 := by
    rw [List.length_append] at hlen
    omega
  have hfind := find_of_mem none hchain hi hfuel
  have ⟨h, hh⟩ : ∃ h, q.head = some h := by
    rw [hq.head_eq]
    cases as <;> exact ⟨_, rfl⟩
  have hne : q.head ≠ some i := by
    rw [hq.head_eq]
    intro he
    apply hi
    cases as with
    | nil =>
      have hpi : p = i := by simpa using he
      simp [hpi]
    | cons a as =>
      have hai : a = i := by simpa using he
      simp [hai]
  obtain ⟨m, hm, hrest⟩ := chain_append.1 hchain
  obtain ⟨has, hp⟩ := chain_concat.1 hm
  -- the element before the removed one now points behind it
  have hps : p ∉ as ∧ p ∉ bs := by
    rw [List.nodup_append] at hnodup
    refine ⟨fun hm => hnodup.2.2 p hm p List.mem_cons_self rfl, fun hm => ?_⟩
    exact (List.nodup_cons.1 hnodup.2.1).1 (List.mem_cons_of_mem _ hm)
  have hnew : Chain (update q.next p (q.next i)) q.head (as ++ p :: bs) none := by
    refine chain_append.2 ⟨some p, has.congr fun j hj => ?_, rfl, ?_⟩
    · exact update_of_ne (fun he : j = p => hps.1 (he ▸ hj)) _ _
    · rw [update_self]
      exact hrest.2.congr fun j hj => update_of_ne (fun he : j = p => hps.2 (he ▸ hj)) _ _
  have hnodup' : (as ++ p :: bs).Nodup := by
    apply List.Nodup.sublist _ hnodup
    exact List.Sublist.append_left ((List.sublist_cons_self i bs).cons_cons p) as
  have hlast := hq.last h hh
  have heq : q.remove i = ({ q with
      next := update q.next p (q.next i)
      last := if q.next i = none then update q.last h p else q.last }, true) := by
    have hprevious : (as ++ [p]).getLast?.or none = some p := by simp
    rw [remove, hfind, hprevious]
    simp [hh, hh ▸ hne]
  rw [heq]
  refine ⟨rfl, hnew, hnodup', fun h' he => ?_⟩
  have hhh : h = h' := Option.some.inj (hh.symm.trans he)
  subst hhh
  cases bs with
  | nil =>
    have hend : q.next i = none := hrest.2
    simp [hend]
  | cons b bs =>
    have hmid : q.next i ≠ none := by
      rw [hrest.2.1]
      exact Option.some_ne_none b
    simp only [hmid, if_false, ← hlast]
    simp [List.getLast?_append, List.getLast?_cons_cons]

lemma Holds.remove_of_mem (hq : q.Holds l) (hi : i ∈ l) :
    (q.remove i).2 = true ∧ (q.remove i).1.Holds (l.erase i) := by
  obtain ⟨as, bs, rfl⟩ := List.append_of_mem hi
  have hnot : i ∉ as := by
    have := hq.nodup
    rw [List.nodup_append] at this
    exact fun hm => this.2.2 i hm i List.mem_cons_self rfl
  have herase : (as ++ i :: bs).erase i = as ++ bs := by
    rw [List.erase_append_right _ hnot, List.erase_cons_head]
  rw [herase]
  rcases List.eq_nil_or_concat as with rfl | ⟨as, p, rfl⟩
  · exact hq.remove_first
  · rw [List.concat_eq_append, List.append_assoc] at hq ⊢
    exact hq.remove_later

end Waiters

end Haiku.Lib
