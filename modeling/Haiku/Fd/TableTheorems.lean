import Haiku.Fd.LifeTheorems

/-!
# What the sections under the mutex of a table do
-/

namespace Haiku.Fd

open Function Lib

variable {C T : Type} [Fintype C] [Fintype T] [DecidableEq C] {s s' : System C T} {p : ℕ} {t : T}
  {c : C} {fd : ℕ}

omit [Fintype C] [Fintype T] in
lemma used_setFd (hused : ∀ c, (s.contexts c).numUsedFds = (s.contexts c).fds.countP (·.isSome))
    (hfd : fd < (s.contexts c).fds.length) {x : Option ℕ} {used : ℤ}
    (hx : used + (if (s.contexts c).fds[fd].isSome then 1 else 0) =
      (s.contexts c).numUsedFds + if x.isSome then 1 else 0) (c' : C) :
    ((s.setFd c fd x used).contexts c').numUsedFds =
      ((s.setFd c fd x used).contexts c').fds.countP (·.isSome) := by
  show (update s.contexts c _ c').numUsedFds =
    ((update s.contexts c _ c').fds.countP (·.isSome) : ℕ)
  by_cases hc : c' = c
  · rw [hc, update_self]
    have hcount := countP_set hfd x
    have hold := hused c
    show used = (((s.contexts c).fds.set fd x).countP (·.isSome) : ℕ)
    split_ifs at hx hcount <;> omega
  · rw [update_of_ne hc]
    exact hused c'

lemma change_setFd (hfd : fd < (s.contexts c).fds.length) (x : Option ℕ) (used : ℤ) (p : ℕ) :
    Change (s.counts p) ((s.setFd c fd x used).counts p) (slotShare p (s.contexts c).fds[fd])
      (slotShare p x) :=
  have hcontexts : (s.setFd c fd x used).contexts =
    update s.contexts c ⟨(s.contexts c).fds.set fd x, used⟩ := rfl
  change_slot hfd hcontexts rfl p

lemma counts_setFd (hfd : fd < (s.contexts c).fds.length) {x : Option ℕ} {used : ℤ} {q : ℕ}
    (hold : (s.contexts c).fds[fd] ≠ some q) (hx : x ≠ some q) :
    (s.setFd c fd x used).counts q = s.counts q := by
  have hchange := change_setFd hfd x used q
  unfold slotShare at hchange
  rw [if_neg hold, if_neg hx] at hchange
  exact hchange.eq

lemma change_empty (h : (s.contexts c).slot fd = some p) (used : ℤ) :
    Change (s.counts p) ((s.setFd c fd none used).counts p) ⟨1, 0, 0, 0, 0⟩ ⟨0, 0, 0, 0, 0⟩ := by
  obtain ⟨hfd, hslot⟩ := slot_eq_some h
  have hchange := change_setFd (s := s) hfd none used p
  unfold slotShare at hchange
  rw [if_pos hslot, if_neg nofun] at hchange
  exact hchange

lemma change_fill (hfd : fd < (s.contexts c).fds.length) (hfree : (s.contexts c).fds[fd] = none)
    (used : ℤ) (p : ℕ) : Change (s.counts p) ((s.setFd c fd (some p) used).counts p)
      ⟨0, 0, 0, 0, 0⟩ ⟨1, 0, 0, 0, 0⟩ := by
  have hchange := change_setFd (s := s) hfd (some p) used p
  unfold slotShare at hchange
  rw [if_neg (by rw [hfree]; exact nofun), if_pos rfl] at hchange
  exact hchange

/-! ## Emptying a slot -/

lemma System.Inv.leak (hs : s.Inv) (hslot : (s.contexts c).slot fd = some p) {d : Descriptor}
    (hp : s.heap p = some d) (hdisc : d.disconnected = true)
    (hmeets : d.ops = true → s.slots p = 1 → s.refs p ≠ 0) :
    (s.setFd c fd none ((s.contexts c).numUsedFds - 1)).Inv := by
  obtain ⟨hfd, hsome⟩ := slot_eq_some hslot
  obtain ⟨hslots, hplain, hopen, hclosing, husers⟩ :=
    change_empty hslot ((s.contexts c).numUsedFds - 1)
  dsimp only at hslots hplain hopen hclosing husers
  have hgood := hs.good p
  have hrefs := refs_eq s p
  have hcount : (s.counts p).slots = s.slots p := rfl
  rw [hp] at hgood
  refine hs.of_one (p := p) hs.fault
    (used_setFd hs.used hfd (by rw [hsome]; simp)) (fun q hq => ?_) ?_
  · have hne : some p ≠ some q := fun h => hq (Option.some.inj h).symm
    exact ⟨rfl, rfl, counts_setFd hfd (by rw [hsome]; exact hne) nofun, rfl, rfl⟩
  · show Good (s.heap p) (s.created p) _ (s.closes p) (s.frees p)
    rw [hp]
    refine ⟨hgood.1, ?_⟩
    rcases hgood.2 with hlive | hspent
    · have hleft := hmeets hlive.ops
      refine .inl (hlive.leak hdisc (by omega) (by omega) (by omega) (by omega) ?_)
      by_contra hnone
      exact hleft (by omega) (by omega)
    · have hspentUsers := hspent.users
      have hspentOpen := hspent.openUsers
      exact .inr (hspent.congr (by omega) (by omega))

variable [DecidableEq T]

lemma System.Inv.take (hs : s.Inv) (hx : s.threads t = .idle)
    (hslot : (s.contexts c).slot fd = some p) :
    ((s.setFd c fd none ((s.contexts c).numUsedFds - 1)).setThread t (.closing p)).Inv := by
  obtain ⟨hfd, hsome⟩ := slot_eq_some hslot
  obtain ⟨d, hp, hborn, hlife⟩ := hs.mem (p := p) (by have := slots_pos hslot; omega)
  set removed := s.setFd c fd none ((s.contexts c).numUsedFds - 1) with hremoved
  have hidle : removed.threads t = .idle := hx
  have hempty := change_empty hslot ((s.contexts c).numUsedFds - 1)
  rw [← hremoved] at hempty
  obtain ⟨hslots, hplain, hopen, hclosing, husers⟩ := hempty
  obtain ⟨hslots', hplain', hopen', hclosing', husers'⟩ :=
    change_idle (y := .closing p) hidle rfl
  have hkind : (Phase.closing p : Phase C).kind = ⟨0, 0, 0, 1, 0⟩ := rfl
  rw [hkind] at hslots' hplain' hopen' hclosing' husers'
  dsimp only at hslots hplain hopen hclosing husers hslots' hplain' hopen' hclosing' husers'
  refine hs.of_one (p := p) hs.fault
    (used_setFd hs.used hfd (by rw [hsome]; simp)) (fun q hq => ?_) ?_
  · have hne : some p ≠ some q := fun h => hq (Option.some.inj h).symm
    refine ⟨rfl, rfl, ?_, rfl, rfl⟩
    have hthread := counts_setThread (s := removed) (t := t) (y := .closing p)
      (by rw [hidle]; exact nofun) hne
    exact hthread.trans (counts_setFd hfd (by rw [hsome]; exact hne) nofun)
  · show Good (s.heap p) (s.created p) _ (s.closes p) (s.frees p)
    rw [hp, hborn]
    refine ⟨rfl, ?_⟩
    rcases hlife with hlive | hspent
    · exact .inl (hlive.congr (by omega) (by omega))
    · have hspentUsers := hspent.users
      have hspentOpen := hspent.openUsers
      exact .inr (hspent.congr (by omega) (by omega))

lemma System.Inv.closeFdIndex (hs : s.Inv) (hx : s.threads t = .idle) (c : C) (fd : ℕ)
    (hmeets : ∀ p d, (s.contexts c).slot fd = some p → s.heap p = some d →
      d.disconnected = true → d.ops = true → s.slots p = 1 → s.refs p ≠ 0) :
    (s.closeFdIndex t c fd).Inv := by
  unfold System.closeFdIndex
  cases hslot : (s.contexts c).slot fd with
  | none => exact hs
  | some p =>
    obtain ⟨d, hp, -⟩ := hs.mem (p := p) (by have := slots_pos hslot; omega)
    dsimp only
    rw [hp]
    dsimp only
    by_cases hdisc : d.disconnected = true
    · rw [if_pos hdisc]
      exact hs.leak hslot hp hdisc (hmeets p d hslot hp hdisc)
    · rw [if_neg hdisc]
      exact hs.take hx hslot

/-! ## Filling a slot -/

omit [Fintype C] [Fintype T] [DecidableEq C] [DecidableEq T] in
lemma freeIndex_spec {fds : List (Option ℕ)} {firstIndex : ℕ}
    (h : freeIndex fds firstIndex = some fd) : ∃ hfd : fd < fds.length, fds[fd] = none := by
  obtain ⟨i, hi, rfl⟩ := Option.map_eq_some_iff.1 h
  obtain ⟨hlt, hnone, -⟩ := List.findIdx?_eq_some_iff_getElem.1 hi
  rw [List.getElem_drop, Option.isNone_iff_eq_none] at hnone
  rw [List.length_drop] at hlt
  refine ⟨by omega, ?_⟩
  rw [← hnone]
  congr 1
  omega

lemma System.Inv.dup (hs : s.Inv) (hx : s.threads t = .dup p c)
    (hmeets : freeIndex (s.contexts c).fds 0 ≠ none →
      ∀ d, s.heap p = some d → d.openCount ≠ 0) :
    (∀ new, s.newFdEtc c p 0 = some new → (new.setThread t .idle).Inv) ∧
      (s.newFdEtc c p 0 = none → (s.setThread t (.got p)).Inv) := by
  have hdesc : (s.threads t).descriptor = some p := by rw [hx]; rfl
  have hkind : (s.threads t).kind = ⟨0, 1, 0, 0, 1⟩ := by rw [hx]; rfl
  have hchange : ∀ y : Phase C, y.descriptor = some p ∨ y = .idle →
      Change (s.counts p) ((s.setThread t y).counts p) ⟨0, 1, 0, 0, 1⟩ y.kind := by
    intro y hy
    rw [← hkind]
    exact change_self hdesc hy
  have hthread := hchange .idle (.inr rfl)
  have hplain := hthread.plain
  have husers := hthread.users
  have hzero : (Phase.idle : Phase C).kind = ⟨0, 0, 0, 0, 0⟩ := rfl
  rw [hzero] at hplain husers
  dsimp only at hplain husers
  obtain ⟨d, hp, hborn, hlife⟩ := hs.mem (p := p) (by omega)
  have hlive : Live d (s.counts p) (s.closes p) (s.frees p) := by
    refine hlife.resolve_right fun h => ?_
    have hnobody := h.users
    omega
  refine ⟨fun new hnew => ?_, fun _ => ?_⟩
  · obtain ⟨fd, hindex, rfl⟩ := Option.map_eq_some_iff.1 hnew
    obtain ⟨hfd, hfree⟩ := freeIndex_spec hindex
    set filled := s.setFd c fd (some p) ((s.contexts c).numUsedFds + 1) with hfilled
    have hheap : filled.heap p = some d := hp
    rw [modify_eq hheap]
    have hfill := change_fill (s := s) hfd hfree ((s.contexts c).numUsedFds + 1) p
    rw [← hfilled] at hfill
    obtain ⟨hslots₁, hplain₁, hopen₁, hclosing₁, -⟩ := hfill
    have hself := change_self (s := filled) (y := .idle) hdesc (.inr rfl)
    have hkind' : (filled.threads t).kind = ⟨0, 1, 0, 0, 1⟩ := hkind
    rw [hkind', hzero] at hself
    obtain ⟨hslots₂, hplain₂, hopen₂, hclosing₂, -⟩ := hself
    dsimp only at hslots₁ hplain₁ hopen₁ hclosing₁ hslots₂ hplain₂ hopen₂ hclosing₂
    refine hs.of_one (p := p) hs.fault
      (used_setFd hs.used hfd (by rw [hfree]; simp)) (fun q hq => ?_) ?_
    · have hne : some p ≠ some q := fun h => hq (Option.some.inj h).symm
      refine ⟨update_of_ne hq _ _, rfl, ?_, rfl, rfl⟩
      have hidle := counts_setThread (s := filled) (t := t) (y := .idle)
        (show (s.threads t).descriptor ≠ some q by rw [hdesc]; exact hne) nofun
      exact hidle.trans (counts_setFd hfd (by rw [hfree]; exact nofun) hne)
    · show Good (update s.heap p _ p) (s.created p) ((filled.setThread t .idle).counts p)
        (s.closes p) (s.frees p)
      rw [update_self, hborn]
      have hopens := hmeets (by rw [hindex]; exact nofun) d hp
      exact ⟨rfl, .inl (hlive.insert hopens (by omega) (by omega) (by omega) (by omega))⟩
  · have hput := hchange (.got p) (.inl rfl)
    have hkind' : (Phase.got p : Phase C).kind = ⟨0, 1, 0, 0, 1⟩ := rfl
    rw [hkind'] at hput
    obtain ⟨hslots₁, hplain₁, hopen₁, hclosing₁, -⟩ := hput
    dsimp only at hslots₁ hplain₁ hopen₁ hclosing₁
    refine hs.of_one (p := p) hs.fault hs.used (fun q hq => ?_) ?_
    · have hne : some p ≠ some q := fun h => hq (Option.some.inj h).symm
      exact ⟨rfl, rfl, counts_setThread (by rw [hdesc]; exact hne) hne, rfl, rfl⟩
    · show Good (s.heap p) (s.created p) _ (s.closes p) (s.frees p)
      rw [hp, hborn]
      exact ⟨rfl, .inl (hlive.congr (by omega) (by omega))⟩

omit [DecidableEq T] in
lemma System.Inv.share (hs : s.Inv) {oldfd : ℕ} (hslot : (s.contexts c).slot oldfd = some p)
    (hfd : fd < (s.contexts c).fds.length) (hfree : (s.contexts c).fds[fd] = none)
    (hops : ∀ d, s.heap p = some d → d.ops = true) :
    ((s.modify p fun d => { d with refCount := d.refCount + 1, openCount := d.openCount + 1 }).setFd
      c fd (some p) ((s.contexts c).numUsedFds + 1)).Inv := by
  have hpos := slots_pos hslot
  obtain ⟨d, hp, hborn, hlife⟩ := hs.mem (p := p) (by omega)
  have hlive : Live d (s.counts p) (s.closes p) (s.frees p) := by
    refine hlife.resolve_right fun h => ?_
    have hfalse := h.ops
    rw [hops d hp] at hfalse
    cases hfalse
  rw [modify_eq hp]
  have hfill := change_fill (s := s) hfd hfree ((s.contexts c).numUsedFds + 1) p
  obtain ⟨hslots, hplain, hopen, hclosing, -⟩ := hfill
  dsimp only at hslots hplain hopen hclosing
  refine hs.of_one (p := p) hs.fault
    (used_setFd hs.used hfd (by rw [hfree]; simp)) (fun q hq => ?_) ?_
  · have hne : some p ≠ some q := fun h => hq (Option.some.inj h).symm
    exact ⟨update_of_ne hq _ _, rfl,
      counts_setFd (s := s) hfd (by rw [hfree]; exact nofun) hne, rfl, rfl⟩
  · show Good (update s.heap p _ p) (s.created p)
      ((s.setFd c fd (some p) ((s.contexts c).numUsedFds + 1)).counts p) (s.closes p) (s.frees p)
    rw [update_self, hborn]
    exact ⟨rfl, .inl (hlive.share hpos (by omega) (by omega) (by omega))⟩

lemma System.Inv.dup2Fd (hs : s.Inv) (hx : s.threads t = .idle) (c : C) (oldfd newfd : ℕ)
    (hmeets : newfd < (s.contexts c).fds.length → oldfd ≠ newfd →
      ∀ p d, (s.contexts c).slot oldfd = some p → s.heap p = some d → d.ops = true) :
    (s.dup2Fd t c oldfd newfd).Inv := by
  unfold System.dup2Fd
  dsimp only
  cases hslot : (s.contexts c).slot oldfd with
  | none => exact hs
  | some p =>
    dsimp only
    by_cases hbad : (s.contexts c).fds.length ≤ newfd ∨ oldfd = newfd
    · rw [if_pos hbad]
      exact hs
    rw [if_neg hbad]
    obtain ⟨hlen, hne⟩ := not_or.1 hbad
    have hfd : newfd < (s.contexts c).fds.length := by omega
    have hops : ∀ d, s.heap p = some d → d.ops = true := fun d => hmeets hfd hne p d hslot
    cases hnew : (s.contexts c).slot newfd with
    | none => exact hs.share hslot hfd (slot_eq_none hnew hfd) hops
    | some evicted =>
      -- first the evicted descriptor is taken out of the slot, then the other one is put into it
      have htaken := hs.take (t := t) hx hnew
      set taken := (s.setFd c newfd none ((s.contexts c).numUsedFds - 1)).setThread t
        (.closing evicted)
      have hio : taken.contexts c =
          ⟨(s.contexts c).fds.set newfd none, (s.contexts c).numUsedFds - 1⟩ :=
        update_self _ _ _
      have hslot' : (taken.contexts c).slot oldfd = some p := by
        rw [hio]
        show ((s.contexts c).fds.set newfd none)[oldfd]?.join = some p
        rw [List.getElem?_set_ne fun h => hne h.symm]
        exact hslot
      have hfd' : newfd < (taken.contexts c).fds.length := by
        rw [hio]
        show newfd < ((s.contexts c).fds.set newfd none).length
        rw [List.length_set]
        exact hfd
      have hfree : (taken.contexts c).fds[newfd] = none := by
        simp only [hio]
        exact List.getElem_set_self _
      have hshared := htaken.share hslot' hfd' hfree hops
      have hcontexts : update taken.contexts c
          ⟨(taken.contexts c).fds.set newfd (some p), (taken.contexts c).numUsedFds + 1⟩ =
          update s.contexts c
            ⟨(s.contexts c).fds.set newfd (some p), (s.contexts c).numUsedFds⟩ := by
        rw [hio]
        show update (update s.contexts c _) c _ = _
        rw [update_idem, List.set_set, Int.sub_add_cancel]
      obtain ⟨d, hp, -⟩ := hs.mem (p := p) (by have := slots_pos hslot; omega)
      have hp' : taken.heap p = some d := hp
      rw [modify_eq hp'] at hshared
      unfold System.setFd at hshared
      dsimp only at hshared ⊢
      rw [hcontexts] at hshared
      rw [modify_eq hp]
      exact hshared

omit [DecidableEq T] in
lemma System.Inv.create (hs : s.Inv) (hp : s.heap p = none) (c : C) (firstIndex : ℕ) :
    (s.create c p firstIndex).Inv := by
  unfold System.create
  dsimp only
  cases hnew : ({ s with heap := update s.heap p (some ⟨1, 0, false, true⟩) } :
      System C T).newFdEtc c p firstIndex with
  | none => exact hs
  | some new =>
    obtain ⟨fd, hindex, rfl⟩ := Option.map_eq_some_iff.1 hnew
    obtain ⟨hfd, hfree⟩ := freeIndex_spec hindex
    have hfree' : (s.contexts c).fds[fd] = none := hfree
    have hgood := hs.good p
    rw [hp] at hgood
    have hnone := hgood.slots
    have hplain₀ := hgood.plain
    have hopen₀ := hgood.openUsers
    have hclosing₀ := hgood.closing
    have hfill := change_fill (s := s) hfd hfree' ((s.contexts c).numUsedFds + 1) p
    obtain ⟨hslots, hplain, hopen, hclosing, -⟩ := hfill
    dsimp only at hslots hplain hopen hclosing
    have hheap : (System.setFd ({ s with
        heap := update s.heap p (some ⟨1, 0, false, true⟩) } : System C T) c fd (some p)
          ((s.contexts c).numUsedFds + 1)).heap p = some ⟨1, 0, false, true⟩ :=
      update_self _ _ _
    dsimp only
    rw [modify_eq hheap]
    refine hs.of_one (p := p) hs.fault
      (used_setFd hs.used hfd (by rw [hfree']; simp)) (fun q hq => ?_) ?_
    · have hne : some p ≠ some q := fun h => hq (Option.some.inj h).symm
      refine ⟨?_, update_of_ne hq _ _,
        counts_setFd (s := s) hfd (by rw [hfree']; exact nofun) hne, update_of_ne hq _ _,
        update_of_ne hq _ _⟩
      show update (update s.heap p _) p _ q = s.heap q
      rw [update_of_ne hq, update_of_ne hq]
    · show Good (update (update s.heap p _) p _ p)
        (update s.created p true p)
        ((s.setFd c fd (some p) ((s.contexts c).numUsedFds + 1)).counts p)
        (update s.closes p 0 p) (update s.frees p 0 p)
      rw [update_self, update_self, update_self, update_self]
      refine ⟨rfl, .inl ⟨rfl, ⟨0, nofun, ?_, ?_⟩, rfl, rfl, by omega⟩⟩
      · show (1 : ℤ) = _
        omega
      · show (0 + 1 : ℤ) = _
        omega

end Haiku.Fd
