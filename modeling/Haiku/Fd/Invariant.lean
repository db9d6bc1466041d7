import Haiku.Fd.Life

/-!
# Counting the slots and references of descriptors

The tables and the threads determine how many slots and references a descriptor has. A step changes
a slot or where a thread is, or both.
-/

namespace Haiku.Fd

open Lib

variable {C T : Type}

/-! ## What is to be shown -/

def Phase.descriptor : Phase C → Option ℕ
  | .idle => none
  | .got p | .gotOpen p | .closing p | .putting p | .dup p _ => some p

/-- Whether a thread has a reference that it got from a table -/
def Phase.user : Phase C → Bool
  | .got _ | .gotOpen _ | .dup _ _ => true
  | _ => false

def Phase.isOpen : Phase C → Bool
  | .gotOpen _ | .closing _ => true
  | _ => false

section

variable [Fintype C] [Fintype T]

def System.slots (s : System C T) (p : ℕ) : ℕ := tally (fun io => io.fds.count (some p)) s.contexts

def System.refs (s : System C T) (p : ℕ) : ℕ :=
  tally (indicator fun x => x.descriptor = some p) s.threads

def System.openRefs (s : System C T) (p : ℕ) : ℕ :=
  tally (indicator fun x => x.descriptor = some p && x.isOpen) s.threads

/-- The number of used slots of each table is right, and so are the counters of descriptors that are
not disconnected. A descriptor is closed and freed once, and not freed while a thread uses it; when
nothing is left of it, both have been done. -/
structure System.Right (s : System C T) : Prop where
  fault : s.fault = false
  used : ∀ c, (s.contexts c).numUsedFds = (s.contexts c).fds.countP (·.isSome)
  counters : ∀ p d, s.heap p = some d → d.disconnected = false →
    d.openCount = s.slots p + s.openRefs p ∧ d.refCount = s.slots p + s.refs p
  once : ∀ p, s.frees p ≤ s.closes p ∧ s.closes p ≤ 1
  users : ∀ p, 0 < s.frees p → ∀ t, (s.threads t).descriptor = some p →
    (s.threads t).user = false
  released : ∀ p, s.created p = true → s.slots p = 0 → s.refs p = 0 →
    s.closes p = 1 ∧ s.frees p = 1

def Meets (s : System C T) (a : T × Input C) : Prop :=
  match s.threads a.1, a.2 with
  -- a descriptor that has been closed is not put into a slot
  | .dup p c, .go => freeIndex (s.contexts c).fds 0 ≠ none →
    ∀ d, s.heap p = some d → d.openCount ≠ 0
  -- nor is one that has been disconnected, closed and freed
  | .idle, .dup2Fd c oldfd newfd => newfd < (s.contexts c).fds.length → oldfd ≠ newfd →
    ∀ p d, (s.contexts c).slot oldfd = some p → s.heap p = some d → d.ops = true
  -- the last slot of a disconnected descriptor is not closed while nobody has a reference
  | .idle, .closeFdIndex c fd => ∀ p d, (s.contexts c).slot fd = some p → s.heap p = some d →
    d.disconnected = true → d.ops = true → s.slots p = 1 → s.refs p ≠ 0
  -- a disconnected descriptor is not closed and freed while somebody has an open reference
  | .got p, .go | .putting p, .go => ∀ d, s.heap p = some d → d.disconnected = true →
    d.ops = true → d.refCount ≠ 1 → d.refCount - 1 = d.openCount →
      ∀ t, s.threads t ≠ .gotOpen p
  | _, _ => True

/-! ## Counts -/

/-- What a thread contributes to the counts of its descriptor -/
def Phase.kind : Phase C → Counts
  | .idle => ⟨0, 0, 0, 0, 0⟩
  | .got _ => ⟨0, 1, 0, 0, 1⟩
  | .gotOpen _ => ⟨0, 0, 1, 0, 1⟩
  | .closing _ => ⟨0, 0, 0, 1, 0⟩
  | .putting _ => ⟨0, 1, 0, 0, 0⟩
  | .dup _ _ => ⟨0, 1, 0, 0, 1⟩

/-- What a thread contributes to the counts of the descriptor at `p` -/
def Phase.share (p : ℕ) (x : Phase C) : Counts :=
  if x.descriptor = some p then x.kind else ⟨0, 0, 0, 0, 0⟩

def slotShare (p : ℕ) (slot : Option ℕ) : Counts :=
  if slot = some p then ⟨1, 0, 0, 0, 0⟩ else ⟨0, 0, 0, 0, 0⟩

def System.counts (s : System C T) (p : ℕ) : Counts where
  slots := s.slots p
  plain := tally (fun x => (x.share p).plain) s.threads
  openUsers := tally (fun x => (x.share p).openUsers) s.threads
  closing := tally (fun x => (x.share p).closing) s.threads
  users := tally (fun x => (x.share p).users) s.threads

/-- The counts `n'` are `n` with `b` in place of `a`. -/
structure Change (n n' a b : Counts) : Prop where
  slots : n'.slots + a.slots = n.slots + b.slots
  plain : n'.plain + a.plain = n.plain + b.plain
  openUsers : n'.openUsers + a.openUsers = n.openUsers + b.openUsers
  closing : n'.closing + a.closing = n.closing + b.closing
  users : n'.users + a.users = n.users + b.users

omit [Fintype C] [Fintype T] in
lemma Change.eq {n n' a : Counts} (h : Change n n' a a) : n' = n := by
  obtain ⟨h₁, h₂, h₃, h₄, h₅⟩ := h
  cases n
  cases n'
  congr 1
  · exact Nat.add_right_cancel h₁
  · exact Nat.add_right_cancel h₂
  · exact Nat.add_right_cancel h₃
  · exact Nat.add_right_cancel h₄
  · exact Nat.add_right_cancel h₅

omit [Fintype C] [Fintype T] in
lemma Phase.share_self {p : ℕ} {x : Phase C} (h : x.descriptor = some p) : x.share p = x.kind :=
  if_pos h

omit [Fintype C] [Fintype T] in
lemma Phase.share_ne {p : ℕ} {x : Phase C} (h : x.descriptor ≠ some p) :
    x.share p = ⟨0, 0, 0, 0, 0⟩ :=
  if_neg h

variable {s s' : System C T} {p : ℕ}

lemma counts_congr (hcontexts : s'.contexts = s.contexts) (hthreads : s'.threads = s.threads) :
    s'.counts p = s.counts p := by
  unfold System.counts System.slots
  rw [hcontexts, hthreads]

lemma change_thread [DecidableEq T] {t : T} {y : Phase C} (hcontexts : s'.contexts = s.contexts)
    (hthreads : s'.threads = Function.update s.threads t y) (p : ℕ) :
    Change (s.counts p) (s'.counts p) ((s.threads t).share p) (y.share p) := by
  have hslots : ∀ x : Phase C, (x.share p).slots = 0 := by
    intro x
    unfold Phase.share
    split_ifs
    · cases x <;> rfl
    · rfl
  refine ⟨?_, ?_, ?_, ?_, ?_⟩
  · rw [hslots, hslots]
    show s'.slots p + 0 = s.slots p + 0
    unfold System.slots
    rw [hcontexts]
  · have h := tally_update (fun x : Phase C => (x.share p).plain) s.threads t y
    rw [← hthreads] at h
    exact h
  · have h := tally_update (fun x : Phase C => (x.share p).openUsers) s.threads t y
    rw [← hthreads] at h
    exact h
  · have h := tally_update (fun x : Phase C => (x.share p).closing) s.threads t y
    rw [← hthreads] at h
    exact h
  · have h := tally_update (fun x : Phase C => (x.share p).users) s.threads t y
    rw [← hthreads] at h
    exact h

omit [Fintype C] [Fintype T] in
lemma count_set {fds : List (Option ℕ)} {fd : ℕ} (h : fd < fds.length) (x : Option ℕ) (p : ℕ) :
    (fds.set fd x).count (some p) + (slotShare p fds[fd]).slots =
      fds.count (some p) + (slotShare p x).slots := by
  have hshare : ∀ y : Option ℕ, (slotShare p y).slots = if y = some p then 1 else 0 := by
    intro y
    unfold slotShare
    split_ifs <;> rfl
  rw [List.count_set h, hshare, hshare]
  have hle : fds[fd] = some p → 1 ≤ fds.count (some p) :=
    fun he => List.one_le_count_iff.2 (he ▸ List.getElem_mem h)
  by_cases ho : fds[fd] = some p
  · have hpos := hle ho
    by_cases hx : x = some p
    · simp only [ho, hx, beq_self_eq_true, if_true]
      omega
    · simp only [ho, hx, beq_self_eq_true, beq_iff_eq, if_true, if_false]
      omega
  · by_cases hx : x = some p
    · simp only [ho, hx, beq_self_eq_true, beq_iff_eq, if_true, if_false]
      omega
    · simp only [ho, hx, beq_iff_eq, if_false]
      omega

omit [Fintype C] [Fintype T] in
lemma countP_set {fds : List (Option ℕ)} {fd : ℕ} (h : fd < fds.length) (x : Option ℕ) :
    (fds.set fd x).countP (·.isSome) + (if fds[fd].isSome then 1 else 0) =
      fds.countP (·.isSome) + if x.isSome then 1 else 0 := by
  rw [List.countP_set h]
  have hle : fds[fd].isSome = true → 1 ≤ fds.countP (·.isSome) :=
    fun he => List.countP_pos_iff.2 ⟨_, List.getElem_mem h, he⟩
  split_ifs with ho hx
  · have := hle ho
    omega
  · have := hle ho
    omega
  · omega
  · omega

lemma change_slot [DecidableEq C] {c : C} {fd : ℕ} {x : Option ℕ} {used : ℤ}
    (hfd : fd < (s.contexts c).fds.length)
    (hcontexts : s'.contexts =
      Function.update s.contexts c ⟨(s.contexts c).fds.set fd x, used⟩)
    (hthreads : s'.threads = s.threads) (p : ℕ) :
    Change (s.counts p) (s'.counts p) (slotShare p (s.contexts c).fds[fd]) (slotShare p x) := by
  have hrest : ∀ y : Option ℕ, (slotShare p y).plain = 0 ∧ (slotShare p y).openUsers = 0 ∧
      (slotShare p y).closing = 0 ∧ (slotShare p y).users = 0 := by
    intro y
    unfold slotShare
    split_ifs <;> exact ⟨rfl, rfl, rfl, rfl⟩
  refine ⟨?_, ?_, ?_, ?_, ?_⟩
  · have htally := tally_update (fun io : IoContext => io.fds.count (some p)) s.contexts c
      ⟨(s.contexts c).fds.set fd x, used⟩
    have hcount := count_set hfd x p
    rw [← hcontexts] at htally
    have hnew : (s'.counts p).slots = tally (fun io : IoContext => io.fds.count (some p))
      s'.contexts := rfl
    have hold : (s.counts p).slots = tally (fun io : IoContext => io.fds.count (some p))
      s.contexts := rfl
    dsimp only at htally
    omega
  · rw [(hrest _).1, (hrest _).1]
    unfold System.counts
    rw [hthreads]
  · rw [(hrest _).2.1, (hrest _).2.1]
    unfold System.counts
    rw [hthreads]
  · rw [(hrest _).2.2.1, (hrest _).2.2.1]
    unfold System.counts
    rw [hthreads]
  · rw [(hrest _).2.2.2, (hrest _).2.2.2]
    unfold System.counts
    rw [hthreads]

lemma users_le (s : System C T) (p : ℕ) :
    (s.counts p).users ≤ (s.counts p).plain + (s.counts p).openUsers := by
  have hle : ∀ x : Phase C, (x.share p).users ≤ (x.share p).plain + (x.share p).openUsers := by
    intro x
    unfold Phase.share
    split_ifs
    · cases x <;> simp [Phase.kind]
    · exact Nat.le_refl _
  have hsum := tally_add (x := s.threads) (f := fun x => (x.share p).plain)
    (g := fun x => (x.share p).openUsers)
    (h := fun x => (x.share p).plain + (x.share p).openUsers) fun _ => rfl
  have hmono := tally_mono (x := s.threads) (f := fun x => (x.share p).users)
    (g := fun x => (x.share p).plain + (x.share p).openUsers) fun t => hle (s.threads t)
  rw [hsum] at hmono
  exact hmono

lemma openRefs_eq (s : System C T) (p : ℕ) :
    s.openRefs p = (s.counts p).openUsers + (s.counts p).closing := by
  have hshare : ∀ x : Phase C, indicator (fun x : Phase C => x.descriptor = some p && x.isOpen) x =
      (x.share p).openUsers + (x.share p).closing := by
    intro x
    unfold indicator Phase.share
    by_cases h : x.descriptor = some p
    · simp only [h, decide_true, Bool.true_and, if_true]
      cases x <;> rfl
    · simp [h]
  exact tally_add (x := s.threads) (f := fun x => (x.share p).openUsers)
    (g := fun x => (x.share p).closing) fun t => hshare (s.threads t)

lemma refs_eq (s : System C T) (p : ℕ) :
    s.refs p = (s.counts p).plain + ((s.counts p).openUsers + (s.counts p).closing) := by
  have hopens := tally_add (x := s.threads) (f := fun x => (x.share p).openUsers)
    (g := fun x => (x.share p).closing)
    (h := fun x => (x.share p).openUsers + (x.share p).closing) fun _ => rfl
  have hshare : ∀ x : Phase C, indicator (fun x : Phase C => x.descriptor = some p) x =
      (x.share p).plain + ((x.share p).openUsers + (x.share p).closing) := by
    intro x
    unfold indicator Phase.share
    dsimp only
    by_cases h : x.descriptor = some p
    · rw [if_pos (decide_eq_true h), if_pos h]
      cases x with
      | idle => cases h
      | _ => rfl
    · simp [h]
  have hsum := tally_add (x := s.threads) (f := fun x => (x.share p).plain)
    (g := fun x => (x.share p).openUsers + (x.share p).closing) fun t => hshare (s.threads t)
  rw [hopens] at hsum
  exact hsum

/-! ## Invariants -/

structure System.Inv (s : System C T) : Prop where
  fault : s.fault = false
  used : ∀ c, (s.contexts c).numUsedFds = (s.contexts c).fds.countP (·.isSome)
  good : ∀ p, Good (s.heap p) (s.created p) (s.counts p) (s.closes p) (s.frees p)

end

end Haiku.Fd
