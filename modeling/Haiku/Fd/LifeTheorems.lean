import Haiku.Fd.Invariant

/-!
# What each step does to the life of descriptors
-/

namespace Haiku.Fd

open Function Lib

variable {C T : Type} [Fintype C] [Fintype T] {s s' : System C T} {p : ℕ} {t : T}

lemma System.Inv.of_one (hs : s.Inv) (hfault : s'.fault = false)
    (hused : ∀ c, (s'.contexts c).numUsedFds = (s'.contexts c).fds.countP (·.isSome))
    (hothers : ∀ q ≠ p, s'.heap q = s.heap q ∧ s'.created q = s.created q ∧
      s'.counts q = s.counts q ∧ s'.closes q = s.closes q ∧ s'.frees q = s.frees q)
    (hgood : Good (s'.heap p) (s'.created p) (s'.counts p) (s'.closes p) (s'.frees p)) :
    s'.Inv := by
  refine ⟨hfault, hused, fun q => ?_⟩
  by_cases hq : q = p
  · rw [hq]
    exact hgood
  · obtain ⟨hheap, hcreated, hcounts, hcloses, hfrees⟩ := hothers q hq
    rw [hheap, hcreated, hcounts, hcloses, hfrees]
    exact hs.good q

lemma System.Inv.mem (hs : s.Inv)
    (hheld : 0 < (s.counts p).slots + (s.counts p).plain + (s.counts p).openUsers +
      (s.counts p).closing) :
    ∃ d, s.heap p = some d ∧ s.created p = true ∧
      (Live d (s.counts p) (s.closes p) (s.frees p) ∨
        Spent d (s.counts p) (s.closes p) (s.frees p)) := by
  have hgood := hs.good p
  cases hp : s.heap p with
  | none =>
    rw [hp] at hgood
    have hslots := hgood.slots
    have hplain := hgood.plain
    have hopen := hgood.openUsers
    have hclosing := hgood.closing
    omega
  | some d =>
    rw [hp] at hgood
    exact ⟨d, rfl, hgood⟩

variable [DecidableEq T]

lemma change_setThread (s : System C T) (t : T) (y : Phase C) (q : ℕ) :
    Change (s.counts q) ((s.setThread t y).counts q) ((s.threads t).share q) (y.share q) :=
  have hcontexts : (s.setThread t y).contexts = s.contexts := rfl
  change_thread hcontexts rfl q

variable {y : Phase C}

lemma counts_setThread {q : ℕ} (hx : (s.threads t).descriptor ≠ some q)
    (hy : y.descriptor ≠ some q) : (s.setThread t y).counts q = s.counts q := by
  have hchange := change_setThread s t y q
  rw [Phase.share_ne hx, Phase.share_ne hy] at hchange
  exact hchange.eq

lemma change_self (hdesc : (s.threads t).descriptor = some p)
    (hy : y.descriptor = some p ∨ y = .idle) :
    Change (s.counts p) ((s.setThread t y).counts p) (s.threads t).kind y.kind := by
  have hchange := change_setThread s t y p
  rw [Phase.share_self hdesc] at hchange
  rcases hy with hy | rfl
  · rw [Phase.share_self hy] at hchange
    exact hchange
  · rw [Phase.share_ne (show (Phase.idle : Phase C).descriptor ≠ some p from nofun)] at hchange
    exact hchange

/-! ## Counters -/

omit [Fintype C] [Fintype T] [DecidableEq T] in
lemma putFd_frame (s : System C T) (p : ℕ) : (s.putFd p).contexts = s.contexts ∧
    (s.putFd p).threads = s.threads ∧ (s.putFd p).created = s.created ∧
      ∀ q ≠ p, (s.putFd p).heap q = s.heap q ∧ (s.putFd p).closes q = s.closes q ∧
        (s.putFd p).frees q = s.frees q := by
  have hne : ∀ {α : Type} (f : ℕ → α) (x : α), ∀ q ≠ p, update f p x q = f q :=
    fun f x q hq => update_of_ne hq _ _
  unfold System.putFd
  cases s.heap p with
  | none => exact ⟨rfl, rfl, rfl, fun q _ => ⟨rfl, rfl, rfl⟩⟩
  | some d =>
    dsimp only
    split_ifs
    · exact ⟨rfl, rfl, rfl, fun q hq => ⟨hne _ _ q hq, rfl, hne _ _ q hq⟩⟩
    · exact ⟨rfl, rfl, rfl, fun q hq => ⟨hne _ _ q hq, rfl, rfl⟩⟩
    · exact ⟨rfl, rfl, rfl, fun q hq => ⟨hne _ _ q hq, hne _ _ q hq, hne _ _ q hq⟩⟩
    · exact ⟨rfl, rfl, rfl, fun q hq => ⟨hne _ _ q hq, rfl, rfl⟩⟩

omit [DecidableEq T] in
lemma openUsers_eq_zero (h : ∀ t, s.threads t ≠ .gotOpen p) : (s.counts p).openUsers = 0 := by
  apply tally_eq_zero.2
  intro t
  unfold Phase.share
  split_ifs with hd
  · cases hx : s.threads t with
    | gotOpen q =>
      rw [hx] at hd
      cases hd
      exact absurd hx (h t)
    | _ => rfl
  · rfl

lemma System.Inv.put (hs : s.Inv) (hx : s.threads t = .got p ∨ s.threads t = .putting p)
    (hmeets : ∀ d, s.heap p = some d → d.disconnected = true → d.ops = true → d.refCount ≠ 1 →
      d.refCount - 1 = d.openCount → ∀ t, s.threads t ≠ .gotOpen p) :
    ((s.putFd p).setThread t .idle).Inv := by
  have hdesc : (s.threads t).descriptor = some p := by
    rcases hx with hx | hx <;> rw [hx] <;> rfl
  have hkind : (s.threads t).kind.slots = 0 ∧ (s.threads t).kind.plain = 1 ∧
      (s.threads t).kind.openUsers = 0 ∧ (s.threads t).kind.closing = 0 := by
    rcases hx with hx | hx <;> rw [hx] <;> exact ⟨rfl, rfl, rfl, rfl⟩
  obtain ⟨hcontexts, hthreads, hcreated, hothers⟩ := putFd_frame s p
  have hsame : ∀ q, ((s.putFd p).setThread t .idle).counts q = (s.setThread t .idle).counts q := by
    intro q
    refine counts_congr (s := s.setThread t .idle) hcontexts ?_
    show update (s.putFd p).threads t .idle = update s.threads t .idle
    rw [hthreads]
  have husers := users_le (s.setThread t .idle) p
  obtain ⟨hslots, hplain, hopen, hclosing, hused⟩ := change_self (y := .idle) hdesc (.inr rfl)
  have hzero : (Phase.idle : Phase C).kind = ⟨0, 0, 0, 0, 0⟩ := rfl
  rw [hzero] at hslots hplain hopen hclosing hused
  dsimp only at hslots hplain hopen hclosing hused
  have hheld : 0 < (s.counts p).slots + (s.counts p).plain + (s.counts p).openUsers +
      (s.counts p).closing := by omega
  obtain ⟨d, hp, hborn, hlife⟩ := hs.mem hheld
  have hfault : ((s.putFd p).setThread t .idle).fault = false := by
    show (s.putFd p).fault = false
    unfold System.putFd
    rw [hp]
    dsimp only
    split_ifs <;> exact hs.fault
  refine hs.of_one (p := p) hfault (fun c => ?_) (fun q hq => ?_) ?_
  · show ((s.putFd p).contexts c).numUsedFds = (((s.putFd p).contexts c).fds.countP (·.isSome) : ℕ)
    rw [hcontexts]
    exact hs.used c
  · obtain ⟨hheap, hcloses, hfrees⟩ := hothers q hq
    refine ⟨hheap, congrFun hcreated q, ?_, hcloses, hfrees⟩
    rw [hsame]
    exact counts_setThread (by rw [hdesc]; exact fun h => hq (Option.some.inj h).symm) nofun
  · rw [hsame, show ((s.putFd p).setThread t .idle).created p = true from
      (congrFun hcreated p).trans hborn]
    show Good ((s.putFd p).heap p) true ((s.setThread t .idle).counts p) ((s.putFd p).closes p)
      ((s.putFd p).frees p)
    unfold System.putFd
    rw [hp]
    dsimp only
    rcases hlife with hlive | hspent
    · by_cases hone : d.refCount = 1
      · rw [if_pos hone, if_pos hlive.ops]
        dsimp only
        rw [update_self, update_self]
        exact hlive.free hone (by omega) (by omega) (by omega) (by omega) husers
      · rw [if_neg hone]
        by_cases htrigger : d.disconnected = true ∧ d.refCount - 1 = d.openCount ∧ d.ops = true
        · rw [if_pos htrigger]
          dsimp only
          rw [update_self, update_self, update_self]
          have hnobody := openUsers_eq_zero (hmeets d hp htrigger.1 htrigger.2.2 hone htrigger.2.1)
          exact ⟨rfl, .inr (hlive.spend hone htrigger.2.1 (by omega) (by omega) husers)⟩
        · rw [if_neg htrigger]
          dsimp only
          rw [update_self]
          have hstays : ¬(d.disconnected = true ∧ d.refCount - 1 = d.openCount) :=
            fun h => htrigger ⟨h.1, h.2, hlive.ops⟩
          exact ⟨rfl, .inl (hlive.put hone hstays (by omega) (by omega) (by omega) (by omega))⟩
    · have hneg := hspent.refCount
      have hops := hspent.ops
      have hspentUsers := hspent.users
      have hspentOpen := hspent.openUsers
      rw [if_neg (by omega), if_neg (by rw [hops]; exact fun h => Bool.false_ne_true h.2.2)]
      dsimp only
      rw [update_self]
      exact ⟨rfl, .inr (hspent.put (by omega) (by omega))⟩

omit [Fintype C] [Fintype T] [DecidableEq T] in
lemma closeFd_frame (s : System C T) (p : ℕ) : (s.closeFd p).contexts = s.contexts ∧
    (s.closeFd p).threads = s.threads ∧ (s.closeFd p).created = s.created ∧
      ∀ q ≠ p, (s.closeFd p).heap q = s.heap q ∧ (s.closeFd p).closes q = s.closes q ∧
        (s.closeFd p).frees q = s.frees q := by
  have hne : ∀ {α : Type} (f : ℕ → α) (x : α), ∀ q ≠ p, update f p x q = f q :=
    fun f x q hq => update_of_ne hq _ _
  unfold System.closeFd
  cases s.heap p with
  | none => exact ⟨rfl, rfl, rfl, fun q _ => ⟨rfl, rfl, rfl⟩⟩
  | some d =>
    dsimp only
    split_ifs
    · exact ⟨rfl, rfl, rfl, fun q hq => ⟨hne _ _ q hq, hne _ _ q hq, rfl⟩⟩
    · exact ⟨rfl, rfl, rfl, fun q hq => ⟨hne _ _ q hq, rfl, rfl⟩⟩

lemma System.Inv.close (hs : s.Inv)
    (hx : (s.threads t = .gotOpen p ∧ y = .got p) ∨ (s.threads t = .closing p ∧ y = .putting p)) :
    ((s.closeFd p).setThread t y).Inv := by
  have hdesc : (s.threads t).descriptor = some p ∧ y.descriptor = some p := by
    rcases hx with ⟨hx, rfl⟩ | ⟨hx, rfl⟩ <;> rw [hx] <;> exact ⟨rfl, rfl⟩
  have hkind : (s.threads t).kind.slots = 0 ∧ (s.threads t).kind.plain = 0 ∧ y.kind.slots = 0 ∧
      y.kind.plain = 1 ∧ y.kind.openUsers = 0 ∧ y.kind.closing = 0 ∧
        (s.threads t).kind.openUsers + (s.threads t).kind.closing = 1 ∧
          (s.threads t).kind.users = y.kind.users := by
    rcases hx with ⟨hx, rfl⟩ | ⟨hx, rfl⟩
    · rw [hx]
      exact ⟨rfl, rfl, rfl, rfl, rfl, rfl, rfl, rfl⟩
    · rw [hx]
      exact ⟨rfl, rfl, rfl, rfl, rfl, rfl, rfl, rfl⟩
  obtain ⟨hcontexts, hthreads, hcreated, hothers⟩ := closeFd_frame s p
  have hsame : ∀ q, ((s.closeFd p).setThread t y).counts q = (s.setThread t y).counts q := by
    intro q
    refine counts_congr (s := s.setThread t y) hcontexts ?_
    show update (s.closeFd p).threads t y = update s.threads t y
    rw [hthreads]
  obtain ⟨hslots, hplain, hopen, hclosing, hused⟩ := change_self hdesc.1 (.inl hdesc.2)
  have hheld : 0 < (s.counts p).slots + (s.counts p).plain + (s.counts p).openUsers +
      (s.counts p).closing := by omega
  obtain ⟨d, hp, hborn, hlife⟩ := hs.mem hheld
  have hfault : ((s.closeFd p).setThread t y).fault = false := by
    show (s.closeFd p).fault = false
    unfold System.closeFd
    rw [hp]
    exact hs.fault
  refine hs.of_one (p := p) hfault (fun c => ?_) (fun q hq => ?_) ?_
  · show ((s.closeFd p).contexts c).numUsedFds =
      (((s.closeFd p).contexts c).fds.countP (·.isSome) : ℕ)
    rw [hcontexts]
    exact hs.used c
  · obtain ⟨hheap, hcloses, hfrees⟩ := hothers q hq
    refine ⟨hheap, congrFun hcreated q, ?_, hcloses, hfrees⟩
    rw [hsame]
    have hne : some p ≠ some q := fun h => hq (Option.some.inj h).symm
    exact counts_setThread (by rw [hdesc.1]; exact hne) (by rw [hdesc.2]; exact hne)
  · rw [hsame, show ((s.closeFd p).setThread t y).created p = true from
      (congrFun hcreated p).trans hborn]
    show Good ((s.closeFd p).heap p) true ((s.setThread t y).counts p) ((s.closeFd p).closes p)
      ((s.closeFd p).frees p)
    have hcloses : (s.closeFd p).closes p =
        if d.openCount = 1 ∧ d.ops then s.closes p + 1 else s.closes p := by
      unfold System.closeFd
      rw [hp]
      dsimp only
      split_ifs
      · rw [update_self]
      · rfl
    have hfrees : (s.closeFd p).frees p = s.frees p := by
      unfold System.closeFd
      rw [hp]
    have hheap : (s.closeFd p).heap p = some { d with openCount := d.openCount - 1 } := by
      unfold System.closeFd
      rw [hp]
      exact update_self _ _ _
    rw [hheap, hcloses, hfrees]
    rcases hlife with hlive | hspent
    · exact ⟨rfl, .inl (hlive.close (by omega) (by omega) (by omega))⟩
    · have hspentUsers := hspent.users
      have hspentOpen := hspent.openUsers
      exact ⟨rfl, .inr (hspent.close (by omega) (by omega))⟩

/-! ## Getting a descriptor -/

variable {fd : ℕ}

omit [Fintype C] [Fintype T] [DecidableEq T] in
lemma slot_eq_some {io : IoContext} (h : io.slot fd = some p) :
    ∃ hfd : fd < io.fds.length, io.fds[fd] = some p := by
  unfold IoContext.slot at h
  cases hget : io.fds[fd]? with
  | none => rw [hget] at h; cases h
  | some x =>
    rw [hget] at h
    obtain ⟨hfd, hx⟩ := List.getElem?_eq_some_iff.1 hget
    exact ⟨hfd, hx.trans h⟩

omit [Fintype C] [Fintype T] [DecidableEq T] in
lemma slot_eq_none {io : IoContext} (h : io.slot fd = none) (hfd : fd < io.fds.length) :
    io.fds[fd] = none := by
  unfold IoContext.slot at h
  rw [List.getElem?_eq_getElem hfd] at h
  exact h

omit [Fintype T] [DecidableEq T] in
lemma slots_pos [Fintype T] {c : C} (h : (s.contexts c).slot fd = some p) :
    0 < (s.counts p).slots := by
  obtain ⟨hfd, hslot⟩ := slot_eq_some h
  have hle := le_tally (fun io : IoContext => io.fds.count (some p)) s.contexts c
  have hpos : 0 < (s.contexts c).fds.count (some p) :=
    List.count_pos_iff.2 (hslot ▸ List.getElem_mem hfd)
  exact Nat.lt_of_lt_of_le hpos hle

omit [Fintype C] [Fintype T] [DecidableEq T] in
lemma modify_eq {d : Descriptor} (h : s.heap p = some d) (f : Descriptor → Descriptor) :
    s.modify p f = { s with heap := update s.heap p (some (f d)) } := by
  unfold System.modify
  rw [h]

lemma change_idle (hx : s.threads t = .idle) (hy : y.descriptor = some p) :
    Change (s.counts p) ((s.setThread t y).counts p) ⟨0, 0, 0, 0, 0⟩ y.kind := by
  have hchange := change_setThread s t y p
  rw [hx, Phase.share_self hy] at hchange
  exact hchange

lemma System.Inv.get (hs : s.Inv) (hx : s.threads t = .idle) (c : C) (fd : ℕ) {opens : ℤ}
    {phase : ℕ → Phase C} (hdesc : ∀ p, (phase p).descriptor = some p)
    (hkind : (∀ p, (phase p).kind = ⟨0, 1, 0, 0, 1⟩ ∧ opens = 0) ∨
      (∀ p, (phase p).kind = ⟨0, 0, 1, 0, 1⟩ ∧ opens = 1)) : (s.get t c fd opens phase).Inv := by
  unfold System.get
  cases hslot : (s.contexts c).slot fd with
  | none => exact hs
  | some p =>
    have hpos := slots_pos hslot
    obtain ⟨d, hp, hborn, hlife⟩ := hs.mem (p := p) (by omega)
    dsimp only
    rw [hp]
    dsimp only
    by_cases hdisc : d.disconnected = true
    · rw [if_pos hdisc]
      exact hs
    rw [if_neg hdisc, modify_eq hp]
    obtain ⟨hslots, hplain, hopen, hclosing, -⟩ := change_idle hx (hdesc p)
    have hlive : Live d (s.counts p) (s.closes p) (s.frees p) :=
      hlife.resolve_right fun h => hdisc h.disconnected
    refine hs.of_one (p := p) hs.fault hs.used (fun q hq => ?_) ?_
    · refine ⟨update_of_ne hq _ _, rfl, ?_, rfl, rfl⟩
      have hne : some p ≠ some q := fun h => hq (Option.some.inj h).symm
      exact counts_setThread (s := s) (y := phase p) (by rw [hx]; exact nofun)
        (by rw [hdesc]; exact hne)
    · show Good (update s.heap p _ p) (s.created p) ((s.setThread t (phase p)).counts p)
        (s.closes p) (s.frees p)
      rw [update_self, hborn]
      rcases hkind with hkind | hkind
      · obtain ⟨hk, rfl⟩ := hkind p
        rw [hk] at hslots hplain hopen hclosing
        dsimp only at hslots hplain hopen hclosing
        exact ⟨rfl, .inl (hlive.get (by omega) (by omega) (by omega) (by omega))⟩
      · obtain ⟨hk, rfl⟩ := hkind p
        rw [hk] at hslots hplain hopen hclosing
        dsimp only at hslots hplain hopen hclosing
        exact ⟨rfl, .inl (hlive.getOpen hpos (by omega) (by omega) (by omega) (by omega))⟩

omit [DecidableEq T] in
lemma System.Inv.disconnect (hs : s.Inv) {d : Descriptor} (hp : s.heap p = some d) :
    (s.modify p fun d => { d with disconnected := true }).Inv := by
  rw [modify_eq hp]
  have hgood := hs.good p
  rw [hp] at hgood
  refine hs.of_one (p := p) hs.fault hs.used (fun q hq =>
    ⟨update_of_ne hq _ _, rfl, rfl, rfl, rfl⟩) ?_
  show Good (update s.heap p _ p) (s.created p) (s.counts p) (s.closes p) (s.frees p)
  rw [update_self]
  refine ⟨hgood.1, hgood.2.imp Live.disconnect fun h => ?_⟩
  exact ⟨h.ops, rfl, h.refCount, h.openCount, h.closes, h.frees, h.openUsers, h.users⟩

end Haiku.Fd
