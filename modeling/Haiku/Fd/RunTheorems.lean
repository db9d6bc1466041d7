import Haiku.Fd.TableTheorems

/-!
# File descriptors in every run

`dup_fd()` gets a reference and puts it into a slot in two sections. If the last slot is closed in
between, the descriptor is closed, and once more when the new slot is. Closing a slot of a
descriptor that has been disconnected does not release its references.
-/

namespace Haiku.Fd

open Lib

variable {C T : Type} [Fintype C] [Fintype T] [DecidableEq C] [DecidableEq T] {s s' : System C T}

omit [DecidableEq C] [DecidableEq T] in
lemma System.Inv.init (tableSize : C → ℕ) : (System.init T tableSize).Inv := by
  have hslots : ∀ p, (System.init T tableSize).slots p = 0 := by
    intro p
    apply tally_eq_zero.2
    intro c
    show (List.replicate (tableSize c) none).count (some p) = 0
    rw [List.count_replicate]
    rfl
  have hidle : ∀ p, (Phase.idle : Phase C).share p = ⟨0, 0, 0, 0, 0⟩ := fun p => if_neg nofun
  have hthreads : ∀ (f : Counts → ℕ) p, f ⟨0, 0, 0, 0, 0⟩ = 0 →
      tally (fun x : Phase C => f (x.share p)) (System.init T tableSize).threads = 0 := by
    intro f p hf
    apply tally_eq_zero.2
    intro t
    show f ((Phase.idle : Phase C).share p) = 0
    rw [hidle, hf]
  refine ⟨rfl, fun c => ?_, fun p => ⟨hslots p, hthreads _ p rfl, hthreads _ p rfl,
    hthreads _ p rfl, hthreads _ p rfl, rfl, rfl⟩⟩
  show (0 : ℤ) = ((List.replicate (tableSize c) (none : Option ℕ)).countP (·.isSome) : ℕ)
  rw [List.countP_replicate]
  rfl

lemma System.Inv.step (hs : s.Inv) {a : T × Input C} (hmeets : Meets s a)
    (h : step s a = some s') : s'.Inv := by
  obtain ⟨t, input⟩ := a
  unfold Fd.step at h
  unfold Meets at hmeets
  dsimp only at h hmeets
  cases hx : s.threads t with
  | idle =>
    rw [hx] at h hmeets
    cases input with
    | newFd c p firstIndex =>
      dsimp only at h
      split_ifs at h with hfree
      cases h
      exact hs.create (Option.not_isSome_iff_eq_none.1 hfree) c firstIndex
    | getFd c fd =>
      cases h
      exact hs.get hx c fd (fun _ => rfl) (.inl fun _ => ⟨rfl, rfl⟩)
    | getOpenFd c fd =>
      cases h
      exact hs.get hx c fd (fun _ => rfl) (.inr fun _ => ⟨rfl, rfl⟩)
    | dupFd source target fd =>
      cases h
      exact hs.get hx source fd (fun _ => rfl) (.inl fun _ => ⟨rfl, rfl⟩)
    | dup2Fd c oldfd newfd =>
      cases h
      exact hs.dup2Fd hx c oldfd newfd hmeets
    | closeFdIndex c fd =>
      cases h
      exact hs.closeFdIndex hx c fd hmeets
    | disconnectFd p =>
      dsimp only at h
      split_ifs at h with hsome
      cases h
      obtain ⟨d, hp⟩ := Option.isSome_iff_exists.1 hsome
      exact hs.disconnect hp
    | go => cases h
  | got p =>
    rw [hx] at h hmeets
    cases input with
    | go => cases h; exact hs.put (.inl hx) hmeets
    | _ => cases h
  | gotOpen p =>
    rw [hx] at h
    cases input with
    | go => cases h; exact hs.close (.inl ⟨hx, rfl⟩)
    | _ => cases h
  | closing p =>
    rw [hx] at h
    cases input with
    | go => cases h; exact hs.close (.inr ⟨hx, rfl⟩)
    | _ => cases h
  | putting p =>
    rw [hx] at h hmeets
    cases input with
    | go => cases h; exact hs.put (.inr hx) hmeets
    | _ => cases h
  | dup p c =>
    rw [hx] at h hmeets
    cases input with
    | go =>
      dsimp only at h
      obtain ⟨hfilled, hfull⟩ := hs.dup hx hmeets
      cases hnew : s.newFdEtc c p 0 with
      | none => rw [hnew] at h; cases h; exact hfull hnew
      | some new => rw [hnew] at h; cases h; exact hfilled new hnew
    | _ => cases h

omit [DecidableEq C] [DecidableEq T] in
lemma user_eq_false {p : ℕ} (h : (s.counts p).users = 0) {t : T}
    (hdesc : (s.threads t).descriptor = some p) : (s.threads t).user = false := by
  have hle := le_tally (fun x : Phase C => (x.share p).users) s.threads t
  have hzero : tally (fun x : Phase C => (x.share p).users) s.threads = 0 := h
  rw [hzero] at hle
  rw [Phase.share_self hdesc] at hle
  cases hx : s.threads t with
  | got | gotOpen | dup => rw [hx] at hle; cases hle
  | _ => rfl

omit [DecidableEq C] [DecidableEq T] in
lemma System.Inv.right (hs : s.Inv) : s.Right := by
  refine ⟨hs.fault, hs.used, fun p d hp hdisc => ?_, fun p => ?_, fun p hfrees t ht => ?_,
    fun p hborn hslots hrefs => ?_⟩
  · have hgood := hs.good p
    rw [hp] at hgood
    have hopens := openRefs_eq s p
    have hrefs := refs_eq s p
    have hcount : (s.counts p).slots = s.slots p := rfl
    rcases hgood.2 with hlive | hspent
    · obtain ⟨leaked, hleaked, href, hopen⟩ := hlive.counters
      have hnone : leaked = 0 := by
        by_contra hne
        have htrue := hleaked (Nat.pos_of_ne_zero hne)
        rw [hdisc] at htrue
        cases htrue
      omega
    · have htrue := hspent.disconnected
      rw [hdisc] at htrue
      cases htrue
  · have hgood := hs.good p
    cases hp : s.heap p with
    | none =>
      rw [hp] at hgood
      have hhooks := hgood.hooks
      split_ifs at hhooks <;> omega
    | some d =>
      rw [hp] at hgood
      rcases hgood.2 with hlive | hspent
      · have hfrees := hlive.frees
        have hcloses := hlive.closes
        split_ifs at hcloses <;> omega
      · have hfrees := hspent.frees
        have hcloses := hspent.closes
        omega
  · have hgood := hs.good p
    cases hp : s.heap p with
    | none =>
      rw [hp] at hgood
      exact user_eq_false hgood.users ht
    | some d =>
      rw [hp] at hgood
      rcases hgood.2 with hlive | hspent
      · have hzero := hlive.frees
        omega
      · exact user_eq_false hspent.users ht
  · have hgood := hs.good p
    have hrefs' := refs_eq s p
    have hcount : (s.counts p).slots = s.slots p := rfl
    cases hp : s.heap p with
    | none =>
      rw [hp, hborn] at hgood
      have hhooks := hgood.hooks
      rw [if_pos rfl] at hhooks
      omega
    | some d =>
      rw [hp] at hgood
      rcases hgood.2 with hlive | hspent
      · have hheld := hlive.held
        omega
      · exact ⟨hspent.closes, hspent.frees⟩

/-- File descriptors are right in every run whose steps meet the condition. -/
theorem fds_right {tableSize : C → ℕ} {h : History (System C T) (T × Input C)}
    (hr : Run step Meets (.init T tableSize) h s) : s.Right := by
  have hinv : s.Inv := hr.invariant (.init tableSize) fun hs hm ht => hs.step hm ht
  exact hinv.right

/-! ## Runs of two threads with a table of two slots -/

/-- Nothing is duplicated, and nothing has been disconnected. -/
def simple (s : System Unit (Fin 2)) (a : Fin 2 × Input Unit) : Bool :=
  match s.threads a.1, a.2 with
  | .dup .., .go => false
  | .idle, .dup2Fd .. => false
  | .idle, .closeFdIndex c fd =>
    ((s.contexts c).slot fd).all fun p => (s.heap p).all fun d => !d.disconnected
  | .got p, .go | .putting p, .go => (s.heap p).all fun d => !d.disconnected
  | _, _ => true

lemma simple_meets (s : System Unit (Fin 2)) (a : Fin 2 × Input Unit)
    (h : simple s a = true) : Meets s a := by
  obtain ⟨t, input⟩ := a
  unfold simple at h
  unfold Meets
  dsimp only at h ⊢
  have hconnected : ∀ p d, (s.heap p).all (fun d => !d.disconnected) = true → s.heap p = some d →
      d.disconnected ≠ true := by
    intro p d hall hp
    rw [hp] at hall
    have hfalse : (!d.disconnected) = true := hall
    rw [Bool.not_eq_true'] at hfalse
    rw [hfalse]
    exact Bool.false_ne_true
  cases hx : s.threads t with
  | idle =>
    rw [hx] at h
    cases input with
    | dup2Fd => cases h
    | closeFdIndex c fd =>
      intro p d hslot hp hdisc
      dsimp only at h
      rw [hslot] at h
      exact absurd hdisc (hconnected p d h hp)
    | _ => trivial
  | got p =>
    rw [hx] at h
    cases input with
    | go => exact fun d hp hdisc => absurd hdisc (hconnected p d h hp)
    | _ => trivial
  | putting p =>
    rw [hx] at h
    cases input with
    | go => exact fun d hp hdisc => absurd hdisc (hconnected p d h hp)
    | _ => trivial
  | dup p c =>
    rw [hx] at h
    cases input with
    | go => cases h
    | _ => trivial
  | _ => cases input <;> trivial

/-- A thread uses a descriptor while the other one closes its slot. -/
theorem fds_right_run : (outcome step (System.init (Fin 2) fun _ : Unit => 2)
    [(0, .newFd () 0 0), (0, .getFd () 0), (1, .closeFdIndex () 0), (1, .go), (1, .go),
      (0, .go)]).Right := by
  obtain ⟨h, hr, -⟩ := run_outcome step simple_meets (System.init (Fin 2) fun _ : Unit => 2)
    [(0, .newFd () 0 0), (0, .getFd () 0), (1, .closeFdIndex () 0), (1, .go), (1, .go), (0, .go)]
    (fun _ => true) (by decide)
  exact fds_right hr

/-- A descriptor whose only slot is closed while it is duplicated is closed twice. -/
theorem not_fds_right : ¬∀ h s, Run step (fun _ _ => True)
    (System.init (Fin 2) fun _ : Unit => 2) h s → s.Right := by
  intro hall
  obtain ⟨h, hr, -⟩ := @run_outcome _ _ (fun _ _ => True) step (fun _ _ => true)
    (fun _ _ _ => trivial) (System.init (Fin 2) fun _ : Unit => 2)
    [(0, .newFd () 0 0), (0, .dupFd () () 0), (1, .closeFdIndex () 0), (1, .go), (1, .go), (0, .go),
      (1, .closeFdIndex () 0), (1, .go)] (fun _ => true) (by decide)
  have honce := ((hall h _ hr).once 0).2
  revert honce
  decide

end Haiku.Fd
