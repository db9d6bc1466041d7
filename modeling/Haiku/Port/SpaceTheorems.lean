import Haiku.Port.MessageSpace

/-!
# The space in use is the space that is needed

`sTotalSpaceInUse` is to be what the messages in the heap take and what the calls in progress have
reserved, and `sAllocatingArea` is to be set only while a thread is about to clear it. A call that
has created an area starts over and reserves its space once more, and a call that gets no area, or
finds that another one has been created, leaves the flag set.
-/

namespace Haiku.Port

open Function Lib

/-! ## What the threads have reserved -/

/-- How often a call has reserved its space since the last area it has created -/
def Place.reservations : Place → ℕ
  | .reserve | .wouldBlock | .addEntry | .waiting _ => 0
  | _ => 1

/-- The space a thread has added to `sTotalSpaceInUse` and not taken back yet, or has freed without
having taken it back -/
def Phase.reserved : Phase → ℕ
  | .get r areas place => r.size * (areas + place.reservations)
  | .freed size => size
  | _ => 0

/-- Whether a call is between setting `sAllocatingArea` and clearing it -/
def Place.allocating : Place → Bool
  | .compareCounter _ | .createArea | .addArea | .countArea | .announceArea | .clearFlag => true
  | _ => false

def Phase.allocating : Phase → Bool
  | .get _ _ place => place.allocating
  | _ => false

def Phase.inProgress : Phase → Bool
  | .outside _ => false
  | _ => true

@[simp] lemma Phase.reserved_notify (p : Phase) : p.notify.reserved = p.reserved := by
  unfold Phase.notify
  split <;> rfl

@[simp] lemma Phase.allocating_notify (p : Phase) : p.notify.allocating = p.allocating := by
  unfold Phase.notify
  split <;> rfl

lemma Phase.inProgress_of_allocating {p : Phase} (h : p.allocating = true) :
    p.inProgress = true := by
  cases p with
  | get r n place => rfl
  | _ => cases h

def Space.live {T : Type} (s : Space T) : ℕ := (s.messages.map PortMessage.space).sum

variable {T : Type} [Fintype T]

/-- What the messages and the calls in progress need together -/
def Space.needed (s : Space T) : ℕ := s.live + tally Phase.reserved s.phases

/-- What is expected of the two variables -/
structure Space.Right (s : Space T) : Prop where
  total : s.sTotalSpaceInUse = BitVec.ofNat 32 s.needed
  flag : s.sAllocatingArea ≠ 0 → ∃ t, (s.phases t).allocating = true
  idle : (∀ t, (s.phases t).inProgress = false) → s.sAllocatingArea = 0

/-! ## The two steps that go wrong -/

/-- What a call has reserved and does not return when it ends with this step -/
def Phase.lost : Phase → Input → ℕ
  | .get r areas (.allocate _), .memalign (some _) => r.size * areas
  | .get r areas .wouldBlock, .go => r.size * areas
  | .get r areas (.waiting _), .woken .timedOut => r.size * areas
  | .get r areas .fail, .go => r.size * (areas + 1)
  | _, _ => 0

/-- Whether a call leaves the flag set with this step -/
def Space.abandons {T : Type} (s : Space T) : Phase → Input → Bool
  | .get _ _ (.compareCounter counter), .go => counter ≠ s.sAreaChangeCounter
  | .get _ _ .createArea, .area created => !created
  | _, _ => false

/-- The condition under which a step keeps the two variables right: what a call has reserved more
than once when it returns is nothing to a variable of 32 bits, and a call that has set the flag
finds no area that others have created, and gets the area it asks for. -/
def Met {T : Type} (s : Space T) (a : T × Input) : Prop :=
  BitVec.ofNat 32 ((s.phases a.1).lost a.2) = 0 ∧ s.abandons (s.phases a.1) a.2 = false


/-! ## What a step changes -/

section

variable {T : Type} {s s' : Space T} {t : T} {p p' : Phase} {i : Input}

/-- What a step does to the flag, and to whether its thread is between setting and clearing it -/
inductive FlagChange (s : Space T) (p : Phase) (i : Input) (s' : Space T) (p' : Phase) : Prop
  | same (ha : s.abandons p i = false) (hf : s'.sAllocatingArea = s.sAllocatingArea)
      (hp : p'.allocating = p.allocating)
  | taken (ha : s.abandons p i = false) (h : p.allocating = false)
      (hf : s'.sAllocatingArea = s.sAllocatingArea ||| 1)
      (hp : p'.allocating = decide (s.sAllocatingArea = 0))
  | cleared (ha : s.abandons p i = false) (h : p.allocating = true)
      (hf : s'.sAllocatingArea = 0) (hp : p'.allocating = false)
  | left (ha : s.abandons p i = true) (h : p.allocating = true)
      (hf : s'.sAllocatingArea = s.sAllocatingArea) (hp : p'.allocating = false)

/-- All that the proofs use of a step of a thread that goes from `p` to `p'` -/
structure Change (s : Space T) (p : Phase) (i : Input) (s' : Space T) (p' : Phase) : Prop where
  phases : s'.phases = s.phases ∨ s'.phases = s.notifyAll.phases
  total : s'.sTotalSpaceInUse + BitVec.ofNat 32 (s.live + p.reserved) =
    s.sTotalSpaceInUse + BitVec.ofNat 32 (s'.live + p'.reserved + p.lost i)
  flag : FlagChange s p i s' p'

lemma add_ofNat (x : BitVec 32) {a b c : ℕ} (h : a + b = c) :
    x + BitVec.ofNat 32 a + BitVec.ofNat 32 b = x + BitVec.ofNat 32 c := by
  rw [← h, BitVec.ofNat_add, BitVec.add_assoc]

lemma sub_ofNat (x : BitVec 32) {a b c : ℕ} (h : a + b = c) :
    x - BitVec.ofNat 32 a + BitVec.ofNat 32 c = x + BitVec.ofNat 32 b := by
  rw [← h, BitVec.ofNat_add, ← BitVec.add_assoc, BitVec.sub_add_cancel]

lemma total_of_same {a b : ℕ} (h : a = b) (x : BitVec 32) :
    x + BitVec.ofNat 32 a = x + BitVec.ofNat 32 b := by
  rw [h]

lemma Space.advance_change {r : Request} {n : ℕ} {place : Place}
    (h : s.advance t r n place i = some (s', p')) : Change s (.get r n place) i s' p' := by
  -- what the call has reserved with its space reserved once more
  have hmore : r.size + r.size * n = r.size * (n + 1) := by rw [Nat.mul_succ, Nat.add_comm]
  cases place with
  | reserve =>
    cases i with
    | go =>
      cases h
      refine ⟨.inl rfl, ?_, .same rfl rfl ?_⟩
      · have hr : ∀ b : Bool, (Phase.get r n (if b then .wait true else .readCounter)).reserved =
            r.size * (n + 1) := by
          intro b
          cases b <;> rfl
        rw [hr]
        apply add_ofNat
        show r.size + (s.live + r.size * n) = s.live + r.size * (n + 1) + 0
        omega
      · cases s.full r.size <;> rfl
    | _ => cases h
  | readCounter =>
    cases i with
    | go => cases h; exact ⟨.inl rfl, rfl, .same rfl rfl rfl⟩
    | _ => cases h
  | allocate counter =>
    cases i with
    | memalign address =>
      cases address with
      | none => cases h; exact ⟨.inl rfl, rfl, .same rfl rfl rfl⟩
      | some address =>
        unfold Space.advance at h
        dsimp only at h
        split_ifs at h
        cases h
        refine ⟨.inl rfl, ?_, .same rfl rfl rfl⟩
        apply total_of_same
        show s.live + r.size * (n + 1) = (r.size + s.live) + 0 + r.size * n
        omega
    | _ => cases h
  | takeFlag counter =>
    cases i with
    | go =>
      cases h
      by_cases hf : s.sAllocatingArea = 0
      · rw [if_neg (not_not.2 hf)]
        exact ⟨.inl rfl, rfl, .taken rfl rfl rfl (decide_eq_true hf).symm⟩
      · rw [if_pos hf]
        exact ⟨.inl rfl, rfl, .taken rfl rfl rfl (decide_eq_false hf).symm⟩
    | _ => cases h
  | compareCounter counter =>
    cases i with
    | go =>
      cases h
      by_cases hc : counter ≠ s.sAreaChangeCounter
      · rw [if_pos hc]
        have ha : s.abandons (.get r n (.compareCounter counter)) .go = true := decide_eq_true hc
        exact ⟨.inl rfl, rfl, .left ha rfl rfl rfl⟩
      · rw [if_neg hc]
        have ha : s.abandons (.get r n (.compareCounter counter)) .go = false :=
          decide_eq_false hc
        exact ⟨.inl rfl, rfl, .same ha rfl rfl⟩
    | _ => cases h
  | giveBack =>
    cases i with
    | go =>
      cases h
      refine ⟨.inl rfl, ?_, .same rfl rfl rfl⟩
      apply sub_ofNat
      show r.size + (s.live + r.size * n + 0) = s.live + r.size * (n + 1)
      omega
    | _ => cases h
  | createArea =>
    cases i with
    | area created =>
      cases h
      cases created with
      | true => exact ⟨.inl rfl, rfl, .same rfl rfl rfl⟩
      | false => exact ⟨.inl rfl, rfl, .left rfl rfl rfl rfl⟩
    | _ => cases h
  | fail =>
    cases i with
    | go =>
      cases h
      refine ⟨.inr rfl, ?_, .same rfl rfl rfl⟩
      apply total_of_same
      show s.live + r.size * (n + 1) = s.live + 0 + r.size * (n + 1)
      omega
    | _ => cases h
  | addArea =>
    cases i with
    | go => cases h; exact ⟨.inl rfl, rfl, .same rfl rfl rfl⟩
    | _ => cases h
  | countArea =>
    cases i with
    | go => cases h; exact ⟨.inl rfl, rfl, .same rfl rfl rfl⟩
    | _ => cases h
  | announceArea =>
    cases i with
    | go => cases h; exact ⟨.inr rfl, rfl, .same rfl rfl rfl⟩
    | _ => cases h
  | clearFlag =>
    cases i with
    | go =>
      cases h
      -- what was reserved for this round stays so when the next one reserves again
      exact ⟨.inl rfl, rfl, .cleared rfl rfl (BitVec.and_zero) rfl⟩
    | _ => cases h
  | wait limitReached =>
    cases i with
    | go =>
      unfold Space.advance at h
      dsimp only at h
      split_ifs at h
      cases h
      exact ⟨.inl rfl, rfl, .same rfl rfl rfl⟩
    | _ => cases h
  | release limitReached =>
    cases i with
    | go =>
      cases h
      refine ⟨.inl rfl, ?_, .same rfl rfl ?_⟩
      · have hr : ∀ b : Bool, (Phase.get r n (if b then .wouldBlock else .addEntry)).reserved =
            r.size * n := by
          intro b
          cases b <;> rfl
        rw [hr]
        apply sub_ofNat
        show r.size + (s.live + r.size * n + 0) = s.live + r.size * (n + 1)
        omega
      · cases limitReached && r.noWait <;> rfl
    | _ => cases h
  | wouldBlock =>
    cases i with
    | go =>
      cases h
      refine ⟨.inl rfl, ?_, .same rfl rfl rfl⟩
      apply total_of_same
      show s.live + r.size * n = s.live + 0 + r.size * n
      omega
    | _ => cases h
  | addEntry =>
    cases i with
    | go => cases h; exact ⟨.inl rfl, rfl, .same rfl rfl rfl⟩
    | _ => cases h
  | waiting notified =>
    cases i with
    | woken status =>
      unfold Space.advance at h
      cases status with
      | ok =>
        dsimp only at h
        split_ifs at h
        cases h
        exact ⟨.inl rfl, rfl, .same rfl rfl rfl⟩
      | timedOut =>
        dsimp only at h
        split_ifs at h
        cases h
        refine ⟨.inl rfl, ?_, .same rfl rfl rfl⟩
        apply total_of_same
        show s.live + r.size * n = s.live + 0 + r.size * n
        omega
      | interrupted => cases h; exact ⟨.inl rfl, rfl, .same rfl rfl rfl⟩
    | _ => cases h

lemma Space.act_change (h : s.act t p i = some (s', p')) : Change s p i s' p' := by
  cases p with
  | outside result =>
    cases i with
    | get r =>
      unfold Space.act at h
      dsimp only at h
      split_ifs at h
      cases h
      exact ⟨.inl rfl, rfl, .same rfl rfl rfl⟩
    | put m =>
      unfold Space.act at h
      dsimp only at h
      split_ifs at h with hm
      cases h
      refine ⟨.inl rfl, ?_, .same rfl rfl rfl⟩
      have hsum := ((List.perm_cons_erase hm).map PortMessage.space).sum_eq
      rw [List.map_cons, List.sum_cons] at hsum
      apply total_of_same
      show (s.messages.map PortMessage.space).sum + 0 =
        ((s.messages.erase m).map PortMessage.space).sum + m.space + 0
      omega
    | _ => cases h
  | get r n place => exact s.advance_change h
  | freed size =>
    cases i with
    | go =>
      cases h
      refine ⟨.inl rfl, ?_, .same rfl rfl rfl⟩
      apply sub_ofNat
      show size + (s.live + 0 + 0) = s.live + size
      omega
    | _ => cases h
  | announce =>
    cases i with
    | go => cases h; exact ⟨.inr rfl, rfl, .same rfl rfl rfl⟩
    | _ => cases h

end

/-! ## The invariant -/

structure Space.Inv (s : Space T) : Prop where
  total : s.sTotalSpaceInUse = BitVec.ofNat 32 s.needed
  flag : s.sAllocatingArea = BitVec.ofNat 32 (tally (indicator Phase.allocating) s.phases)
  one : tally (indicator Phase.allocating) s.phases ≤ 1

variable {s s' : Space T} {a : T × Input}

lemma Space.Inv.right (hs : s.Inv) : s.Right := by
  have hflag : s.sAllocatingArea ≠ 0 → ∃ t, (s.phases t).allocating = true := by
    intro hne
    by_contra hno
    have hzero : tally (indicator Phase.allocating) s.phases = 0 := by
      apply tally_eq_zero.2
      intro t
      exact if_neg fun ht => hno ⟨t, ht⟩
    apply hne
    rw [hs.flag, hzero]
    rfl
  refine ⟨hs.total, hflag, fun hidle => ?_⟩
  by_contra hne
  obtain ⟨t, ht⟩ := hflag hne
  have hin := Phase.inProgress_of_allocating ht
  rw [hidle t] at hin
  cases hin

lemma inv_init : (Space.init T).Inv := by
  have hreserved : tally Phase.reserved (Space.init T).phases = 0 := tally_eq_zero.2 fun _ => rfl
  have hnone : tally (indicator Phase.allocating) (Space.init T).phases = 0 :=
    tally_eq_zero.2 fun _ => rfl
  refine ⟨?_, ?_, ?_⟩
  · show (0 : BitVec 32) = BitVec.ofNat 32 (0 + tally Phase.reserved (Space.init T).phases)
    rw [hreserved]
    rfl
  · show (0 : BitVec 32) = _
    rw [hnone]
    rfl
  · rw [hnone]
    exact Nat.zero_le 1

lemma tally_of_phases {s₁ : Space T} {f : Phase → ℕ} (hf : ∀ p : Phase, f p.notify = f p)
    (h : s₁.phases = s.phases ∨ s₁.phases = s.notifyAll.phases) :
    tally f s₁.phases = tally f s.phases ∧ ∀ t, f (s₁.phases t) = f (s.phases t) := by
  rcases h with h | h
  · rw [h]
    exact ⟨rfl, fun t => rfl⟩
  · rw [h]
    exact ⟨Finset.sum_congr rfl fun t _ => hf (s.phases t), fun t => hf (s.phases t)⟩

variable [DecidableEq T]

lemma tally_of_change {s₁ : Space T} {t : T} {p' : Phase} {i : Input} {f : Phase → ℕ}
    (hf : ∀ p : Phase, f p.notify = f p) (hc : Change s (s.phases t) i s₁ p') :
    tally f (update s₁.phases t p') + f (s.phases t) = tally f s.phases + f p' := by
  obtain ⟨hsum, hsame⟩ := tally_of_phases hf hc.phases
  have hupdate := tally_update f s₁.phases t p'
  rw [hsame t, hsum] at hupdate
  exact hupdate

lemma total_step (hs : s.sTotalSpaceInUse = BitVec.ofNat 32 s.needed)
    (h : step s a = some s') : s'.sTotalSpaceInUse =
      BitVec.ofNat 32 s'.needed + BitVec.ofNat 32 ((s.phases a.1).lost a.2) := by
  obtain ⟨⟨s₁, p'⟩, hact, rfl⟩ := Option.map_eq_some_iff.1 h
  have hc := s.act_change hact
  have hsum := tally_of_change Phase.reserved_notify hc
  have htotal := hc.total
  dsimp only
  generalize (s.phases a.1).lost a.2 = lost at htotal ⊢
  have hneeded : ({ s₁ with phases := update s₁.phases a.1 p' } : Space T).needed =
      s₁.live + tally Phase.reserved (update s₁.phases a.1 p') := rfl
  rw [hneeded]
  generalize tally Phase.reserved (update s₁.phases a.1 p') = after at hsum ⊢
  have hbefore : s.needed = s.live + tally Phase.reserved s.phases := rfl
  -- both sides with what the thread had reserved before the step
  have hsplit : s.needed + (s₁.live + p'.reserved + lost) =
      s₁.live + after + lost + (s.live + (s.phases a.1).reserved) := by omega
  rw [hs, ← BitVec.ofNat_add, hsplit, BitVec.ofNat_add (s₁.live + after + lost)] at htotal
  rw [← BitVec.ofNat_add]
  exact (BitVec.add_left_inj _).1 htotal

lemma flag_step (hs : s.Inv) (h : step s a = some s')
    (ha : s.abandons (s.phases a.1) a.2 = false) :
    s'.sAllocatingArea = BitVec.ofNat 32 (tally (indicator Phase.allocating) s'.phases) ∧
      tally (indicator Phase.allocating) s'.phases ≤ 1 := by
  obtain ⟨⟨s₁, p'⟩, hact, rfl⟩ := Option.map_eq_some_iff.1 h
  have hc := s.act_change hact
  have hnotify : ∀ p : Phase, indicator Phase.allocating p.notify = indicator Phase.allocating p :=
    fun p => by rw [indicator, indicator, Phase.allocating_notify]
  have hsum := tally_of_change hnotify hc
  have hone := hs.one
  have hflag := hs.flag
  show s₁.sAllocatingArea = BitVec.ofNat 32 (tally _ (update s₁.phases a.1 p')) ∧
    tally _ (update s₁.phases a.1 p') ≤ 1
  generalize tally (indicator Phase.allocating) (update s₁.phases a.1 p') = after
    at hsum ⊢
  generalize tally (indicator Phase.allocating) s.phases = before at hsum hone hflag
  cases hc.flag with
  | same _ hf hp =>
    have heq : after = before := by
      rw [indicator, indicator, hp] at hsum
      omega
    rw [hf, heq]
    exact ⟨hflag, hone⟩
  | taken _ hout hf hp =>
    rw [indicator, indicator, hp, hout, if_neg Bool.false_ne_true] at hsum
    by_cases hzero : before = 0
    · -- the flag was not set, and this thread is the one that has set it
      rw [hzero] at hflag
      have hclear : s.sAllocatingArea = 0 := hflag
      rw [if_pos (decide_eq_true hclear)] at hsum
      have heq : after = 1 := by omega
      rw [hf, hflag, heq]
      exact ⟨rfl, Nat.le_refl 1⟩
    · have heq : before = 1 := by omega
      rw [heq] at hflag
      have hset : ¬s.sAllocatingArea = 0 := by
        rw [hflag]
        decide
      rw [if_neg (by rw [decide_eq_false hset]; exact Bool.false_ne_true)] at hsum
      have hafter : after = 1 := by omega
      rw [hf, hflag, hafter]
      exact ⟨rfl, Nat.le_refl 1⟩
  | cleared _ hin hf hp =>
    rw [indicator, indicator, hp, hin, if_neg Bool.false_ne_true, if_pos rfl] at hsum
    have heq : after = 0 := by omega
    rw [hf, heq]
    exact ⟨rfl, Nat.zero_le 1⟩
  | left hleft => rw [ha] at hleft; cases hleft

lemma Space.Inv.step (hs : s.Inv) (hok : Met s a) (h : step s a = some s') : s'.Inv := by
  have htotal := total_step hs.total h
  have hnothing : BitVec.ofNat 32 ((s.phases a.1).lost a.2) = 0#32 := hok.1
  rw [hnothing, BitVec.add_zero] at htotal
  obtain ⟨hflag, hone⟩ := flag_step hs h hok.2
  exact ⟨htotal, hflag, hone⟩

lemma Space.Inv.met (hs : s.Inv) (h : Port.step s a = some s') (hright : s'.Right) :
    Met s a := by
  refine ⟨?_, ?_⟩
  · have htotal := total_step hs.total h
    rw [hright.total] at htotal
    have hzero : BitVec.ofNat 32 s'.needed + 0#32 =
        BitVec.ofNat 32 s'.needed + BitVec.ofNat 32 ((s.phases a.1).lost a.2) := by
      rw [← htotal, BitVec.add_zero]
    exact ((BitVec.add_right_inj _).1 hzero).symm
  · by_contra hne
    have ha : s.abandons (s.phases a.1) a.2 = true := by
      rwa [Bool.not_eq_false] at hne
    obtain ⟨⟨s₁, p'⟩, hact, rfl⟩ := Option.map_eq_some_iff.1 h
    have hc := s.act_change hact
    have hnotify : ∀ p : Phase,
        indicator Phase.allocating p.notify = indicator Phase.allocating p :=
      fun p => by rw [indicator, indicator, Phase.allocating_notify]
    have hsum := tally_of_change hnotify hc
    have hone := hs.one
    cases hc.flag with
    | left _ hin hf hp =>
      -- the thread was the only one, and the flag is still set
      rw [indicator, indicator, hp, hin, if_neg Bool.false_ne_true, if_pos rfl] at hsum
      have hbefore : tally (indicator Phase.allocating) s.phases = 1 := by omega
      have hset : s₁.sAllocatingArea ≠ 0 := by
        rw [hf, hs.flag, hbefore]
        decide
      have hnone : tally (indicator Phase.allocating) (update s₁.phases a.1 p') = 0 := by
        omega
      obtain ⟨t, ht⟩ := hright.flag hset
      have hzero := tally_eq_zero.1 hnone t
      rw [indicator, if_pos ht] at hzero
      omega
    | same hno => rw [ha] at hno; cases hno
    | taken hno => rw [ha] at hno; cases hno
    | cleared hno => rw [ha] at hno; cases hno

/-! ## Runs -/

/-- The two variables are right in every state of a run exactly if all its steps have met the
condition. -/
theorem space_right_iff {h : History (Space T) (T × Input)}
    (hr : Run step (fun _ _ => True) (Space.init T) h s) :
    (s.Right ∧ ∀ e ∈ h, e.1.Right) ↔ ∀ e ∈ h, Met e.1 e.2 := by
  have hkeep : (∀ e ∈ h, Met e.1 e.2) → s.Inv ∧ ∀ e ∈ h, e.1.Right := by
    apply hr.history (P := fun h s => (∀ e ∈ h, Met e.1 e.2) → s.Inv ∧ ∀ e ∈ h, e.1.Right)
    · exact fun _ => ⟨inv_init, fun e he => by cases he⟩
    intro h s a s' _ ih _ hstep hmet
    obtain ⟨hinv, hall⟩ := ih fun e he => hmet e (List.mem_cons_of_mem _ he)
    refine ⟨hinv.step (hmet (s, a) List.mem_cons_self) hstep, fun e he => ?_⟩
    rcases List.mem_cons.1 he with rfl | he
    · exact hinv.right
    · exact hall e he
  have hneed : (s.Right ∧ ∀ e ∈ h, e.1.Right) → s.Inv ∧ ∀ e ∈ h, Met e.1 e.2 := by
    apply hr.history
      (P := fun h s => (s.Right ∧ ∀ e ∈ h, e.1.Right) → s.Inv ∧ ∀ e ∈ h, Met e.1 e.2)
    · exact fun _ => ⟨inv_init, fun e he => by cases he⟩
    rintro h s a s' _ ih _ hstep ⟨hlast, hall⟩
    have hbefore : s.Right ∧ ∀ e ∈ h, e.1.Right :=
      ⟨hall (s, a) List.mem_cons_self, fun e he => hall e (List.mem_cons_of_mem _ he)⟩
    obtain ⟨hinv, hmet⟩ := ih hbefore
    have hok := hinv.met hstep hlast
    refine ⟨hinv.step hok hstep, fun e he => ?_⟩
    rcases List.mem_cons.1 he with rfl | he
    · exact hok
    · exact hmet e he
  refine ⟨fun hright => (hneed hright).2, fun hmet => ?_⟩
  obtain ⟨hinv, hall⟩ := hkeep hmet
  exact ⟨hinv.right, hall⟩

def emptyRequest : Request := ⟨0, 0, 0, 0⟩

/-- A message that is allocated and put back -/
theorem space_right_iff_put : ∃ h s, Run step (fun _ _ => True) (Space.init Unit) h s ∧
    h.length = 7 ∧ ((s.Right ∧ ∀ e ∈ h, e.1.Right) ↔ ∀ e ∈ h, Met e.1 e.2) := by
  let message : PortMessage := ⟨16, 0, 0⟩
  obtain ⟨h, hr, hl⟩ := @run_outcome _ _ (fun _ _ => True) step (fun _ _ => true)
    (fun _ _ _ => trivial) (Space.init Unit)
    [((), .get emptyRequest), ((), .go), ((), .go), ((), .memalign (some 16)),
      ((), .put message), ((), .go), ((), .go)]
    (fun h => h.length = 7) (by decide)
  exact ⟨h, _, hr, of_decide_eq_true hl, space_right_iff hr⟩

/-- A call that gets no area: after its return no call is in progress, and the flag is set. -/
theorem not_space_right :
    ¬∀ h s, Run step (fun _ _ => True) (Space.init Unit) h s → s.Right := by
  intro hall
  obtain ⟨h, hr, -⟩ := @run_outcome _ _ (fun _ _ => True) step (fun _ _ => true)
    (fun _ _ _ => trivial) (Space.init Unit)
    [((), .get emptyRequest), ((), .go), ((), .go), ((), .memalign none), ((), .go), ((), .go),
      ((), .area false), ((), .go)]
    (fun _ => true) (by decide)
  have hidle := (hall h _ hr).idle fun t => by cases t; decide
  revert hidle
  decide

end Haiku.Port
