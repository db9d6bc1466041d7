import Haiku.Cache.DetachTheorems

/-!
# What reaches the device

The committed versions of a block are what the device held at first, what the block held when
a transaction closed that had changed it, and what was stored into it without a transaction.
Every write to the device carries a committed version, and the versions of a block reach the
device in the order in which they were committed.

This holds as long as an abort restores all blocks of its transaction. It does not restore a
block whose contents were not preserved when the block came to the transaction (`unsaved`):
the aborted contents then stay in the cache and are written back like any others.
-/

namespace Haiku.Cache

open Lib

variable {D : Type} {s s' : BlockCache D} {n : BlockNumber}

/-! ## Committed versions -/

section Versions

variable [Zero D]

/-- The contents that a call from `s` to `s'` commits for block `n`: those of the transaction it
closes, or those it stores into a block without a transaction. -/
def commits (n : BlockNumber) (s : BlockCache D) (c : Call D) (s' : BlockCache D) : List D :=
  if (s'.role n).previous.any s.isOpen then [(s'.role n).original.getD (s'.readBack n)]
  else match c with
    | .edit none k d => if k = n ∧ (s.role n).owner = none then [d] else []
    | .getWritable _ k none true => if k = n ∧ (s.role n).owner = none then [0] else []
    | _ => []

/-- The versions of block `n` that were committed in a run, oldest first. -/
def versions (n : BlockNumber) :
    History (BlockCache D) (Call D) → BlockCache D → List D
  | [], s => [s.device n]
  | (s, c) :: h, s' => versions n h s ++ commits n s c s'

end Versions

/-- The contents that were written to block `n` of the device, oldest first. -/
def BlockCache.writesTo (s : BlockCache D) (n : BlockNumber) : List D :=
  (s.written.filter (·.1 = n)).map Prod.snd

/-- Whether block `n` came to the transaction it belongs to, in a call from `s` to `s'` or
earlier, without its contents being preserved. -/
def unsavedNext (before : Bool) (n : BlockNumber) (s s' : BlockCache D) : Bool :=
  if (s'.role n).owner = none then false
  else if (s'.role n).owner = (s.role n).owner then before
  else (s'.role n).original.isNone

/-- Whether the contents of block `n` were not preserved when it came to the transaction it
belongs to. -/
def unsaved (n : BlockNumber) : History (BlockCache D) (Call D) → BlockCache D → Bool
  | [], _ => false
  | (s, _) :: h, s' => unsavedNext (unsaved n h s) n s s'

/-- No transaction is aborted that has a block whose contents were not preserved. -/
def AbortsRestore : History (BlockCache D) (Call D) → Prop
  | [] => True
  | (s, c) :: h => AbortsRestore h ∧
    ∀ id n, c = .abortTransaction id → s.Owns id n → unsaved n h s = false

/-! ## The versions in the cache and on the device -/

/-- Where block `n` stands among its versions `vs`: version `w` is on the device, version `i` is
the one that is written next, and the writes so far were the versions `js`. -/
structure Standing (vs : List D) (u : Bool) (n : BlockNumber) (s : BlockCache D) (js : List ℕ)
    (w i : ℕ) : Prop where
  sorted : js.Pairwise (· ≤ ·)
  log : List.Forall₂ (fun d j => vs[j]? = some d) (s.writesTo n) js
  last : ∀ j ∈ js, j ≤ w
  le : w ≤ i
  device : vs[w]? = some (s.device n)
  free : (s.role n).owner = none → vs[i]? = some (s.readBack n)
  saved : (s.role n).owner ≠ none → u = false →
    ∃ d, (s.role n).original = some d ∧ vs[i]? = some d
  /-- A block that is not preserved has no earlier version to write. -/
  unsaved : u = true → (s.role n).previous = none

/-- The writes to block `n` are versions of it, in their order. -/
def Tracked (vs : List D) (u : Bool) (n : BlockNumber) (s : BlockCache D) : Prop :=
  ∃ js w i, Standing vs u n s js w i

variable {d : D}

lemma getElem?_append_some {vs : List D} {j : ℕ} (h : vs[j]? = some d) (ds : List D) :
    (vs ++ ds)[j]? = some d := by
  obtain ⟨hlt, -⟩ := List.getElem?_eq_some_iff.1 h
  rw [List.getElem?_append_left hlt]
  exact h

section Tracked

variable {vs : List D} {u : Bool}

section

variable (h : Tracked vs u n s)
include h

lemma Tracked.still (ds : List D) (howner : (s'.role n).owner = (s.role n).owner)
    (horig : ∀ d, (s.role n).original = some d → (s'.role n).original = some d)
    (hprev : (s'.role n).previous = (s.role n).previous ∨ (s'.role n).previous = none)
    (hdev : s'.device n = s.device n) (hlog : s'.writesTo n = s.writesTo n)
    (hread : (s.role n).owner = none → s'.readBack n = s.readBack n ∨
      s'.readBack n = s.device n) : Tracked (vs ++ ds) (unsavedNext u n s s') n s' := by
  obtain ⟨js, w, i, hS⟩ := h
  have hlog' : List.Forall₂ (fun d j => (vs ++ ds)[j]? = some d) (s'.writesTo n) js := by
    rw [hlog]
    exact hS.log.imp fun _ _ hd => getElem?_append_some hd ds
  have hdev' : (vs ++ ds)[w]? = some (s'.device n) := by
    rw [hdev]
    exact getElem?_append_some hS.device ds
  unfold unsavedNext
  rw [howner]
  by_cases hown : (s.role n).owner = none
  · rw [if_pos hown]
    rcases hread hown with he | he
    · refine ⟨js, w, i, hS.sorted, hlog', hS.last, hS.le, hdev', fun _ => ?_, ?_, by simp⟩
      · rw [he]
        exact getElem?_append_some (hS.free hown) ds
      · rw [howner]
        exact fun hne => absurd hown hne
    · -- the block holds what is on the device
      refine ⟨js, w, w, hS.sorted, hlog', hS.last, Nat.le_refl w, hdev', fun _ => ?_, ?_, by simp⟩
      · rw [he, ← hdev]
        exact hdev'
      · rw [howner]
        exact fun hne => absurd hown hne
  · rw [if_neg hown, if_pos rfl]
    refine ⟨js, w, i, hS.sorted, hlog', hS.last, hS.le, hdev', ?_, fun _ hu => ?_, fun hu => ?_⟩
    · rw [howner]
      exact fun hne => absurd hne hown
    · obtain ⟨d, hd, hi⟩ := hS.saved hown hu
      exact ⟨d, horig d hd, getElem?_append_some hi ds⟩
    · rcases hprev with he | he
      · rw [he]
        exact hS.unsaved hu
      · exact he

lemma Tracked.same (ds : List D) (hrole : s'.role n = s.role n)
    (hdev : s'.device n = s.device n) (hlog : s'.writesTo n = s.writesTo n)
    (hread : s'.readBack n = s.readBack n ∨ s'.readBack n = s.device n) :
    Tracked (vs ++ ds) (unsavedNext u n s s') n s' :=
  h.still ds (by rw [hrole]) (fun _ ho => by rw [hrole]; exact ho) (.inl (by rw [hrole])) hdev hlog
    fun _ => hread

lemma Tracked.commit {u' : Bool} (hdev : s'.device n = s.device n)
    (hlog : s'.writesTo n = s.writesTo n) (hfree : (s'.role n).owner = none → s'.readBack n = d)
    (hsaved : (s'.role n).owner ≠ none → (s'.role n).original = some d) (hu : u' = false) :
    Tracked (vs ++ [d]) u' n s' := by
  obtain ⟨js, w, i, hS⟩ := h
  obtain ⟨hlt, -⟩ := List.getElem?_eq_some_iff.1 hS.device
  have hnew : (vs ++ [d])[vs.length]? = some d := List.getElem?_concat_length
  refine ⟨js, w, vs.length, hS.sorted, ?_, hS.last, Nat.le_of_lt hlt, ?_, fun ho => ?_,
    fun ho _ => ?_, by simp [hu]⟩
  · rw [hlog]
    exact hS.log.imp fun _ _ hd => getElem?_append_some hd [d]
  · rw [hdev]
    exact getElem?_append_some hS.device [d]
  · rw [hfree ho]
    exact hnew
  · exact ⟨d, hsaved ho, hnew⟩

lemma Tracked.store {ds : List D} (hrole : s'.role n = s.role n)
    (hdev : s'.device n = s.device n) (hlog : s'.writesTo n = s.writesTo n)
    (hds : (s.role n).owner = none → ds = [s'.readBack n]) :
    Tracked (vs ++ ds) (unsavedNext u n s s') n s' := by
  by_cases hown : (s.role n).owner = none
  · rw [hds hown]
    refine h.commit hdev hlog (fun _ => rfl) ?_ ?_
    · rw [hrole]
      exact fun hne => absurd hown hne
    · rw [unsavedNext, hrole, if_pos hown]
  · exact h.still ds (by rw [hrole]) (fun _ ho => by rw [hrole]; exact ho) (.inl (by rw [hrole]))
      hdev hlog fun ho => absurd ho hown

lemma Tracked.forgets (ds : List D)
    (howner : (s'.role n).owner ≠ (s.role n).owner) (hown : (s'.role n).owner ≠ none)
    (horig : (s'.role n).original = none) (hprev : (s'.role n).previous = none)
    (hdev : s'.device n = s.device n) (hlog : s'.writesTo n = s.writesTo n) :
    Tracked (vs ++ ds) (unsavedNext u n s s') n s' := by
  obtain ⟨js, w, i, hS⟩ := h
  have hu : unsavedNext u n s s' = true := by
    rw [unsavedNext, if_neg hown, if_neg howner, horig]
    rfl
  rw [hu]
  refine ⟨js, w, i, hS.sorted, ?_, hS.last, hS.le, ?_, fun ho => absurd ho hown, by simp,
    fun _ => hprev⟩
  · rw [hlog]
    exact hS.log.imp fun _ _ hd => getElem?_append_some hd ds
  · rw [hdev]
    exact getElem?_append_some hS.device ds

lemma Tracked.preserves (ds : List D)
    (hown : (s.role n).owner = none) (hown' : (s'.role n).owner ≠ none)
    (horig : (s'.role n).original = some (s.readBack n))
    (hdev : s'.device n = s.device n) (hlog : s'.writesTo n = s.writesTo n) :
    Tracked (vs ++ ds) (unsavedNext u n s s') n s' := by
  obtain ⟨js, w, i, hS⟩ := h
  have hu : unsavedNext u n s s' = false := by
    rw [unsavedNext, if_neg hown', if_neg (by rw [hown]; exact hown'), horig]
    rfl
  rw [hu]
  refine ⟨js, w, i, hS.sorted, ?_, hS.last, hS.le, ?_, fun ho => absurd ho hown', fun _ _ => ?_,
    by simp⟩
  · rw [hlog]
    exact hS.log.imp fun _ _ hd => getElem?_append_some hd ds
  · rw [hdev]
    exact getElem?_append_some hS.device ds
  · exact ⟨_, horig, getElem?_append_some (hS.free hown) ds⟩

lemma Tracked.write (ds : List D) (hrole : s'.role n = s.role n)
    (hread : s'.readBack n = s.readBack n) (hdev : s'.device n = d)
    (hlog : s'.writesTo n = s.writesTo n ++ [d])
    (hfree : (s.role n).owner = none → d = s.readBack n) (hsaved : (s.role n).owner ≠ none →
      (s.role n).previous ≠ none ∧ ∀ o, (s.role n).original = some o → d = o) :
    Tracked (vs ++ ds) (unsavedNext u n s s') n s' := by
  obtain ⟨js, w, i, hS⟩ := h
  have hi : vs[i]? = some d := by
    by_cases hown : (s.role n).owner = none
    · rw [hfree hown]
      exact hS.free hown
    · obtain ⟨hp, hd⟩ := hsaved hown
      have hu : u = false := by
        by_contra hu
        exact hp (hS.unsaved (by simpa using hu))
      obtain ⟨o, ho, hi⟩ := hS.saved hown hu
      rw [hd o ho]
      exact hi
  have hS' : Tracked vs u n s' := by
    refine ⟨js ++ [i], i, i, ?_, ?_, ?_, Nat.le_refl i, by rw [hdev]; exact hi, ?_, ?_, ?_⟩
    · refine List.pairwise_append.2 ⟨hS.sorted, by simp, fun j hj k hk => ?_⟩
      rw [List.mem_singleton.1 hk]
      exact Nat.le_trans (hS.last j hj) hS.le
    · rw [hlog]
      exact List.rel_append hS.log (.cons hi .nil)
    · intro j hj
      rcases List.mem_append.1 hj with hj | hj
      · exact Nat.le_trans (hS.last j hj) hS.le
      · exact Nat.le_of_eq (List.mem_singleton.1 hj)
    · rw [hrole, hread]
      exact hS.free
    · rw [hrole]
      exact hS.saved
    · rw [hrole]
      exact hS.unsaved
  have hstill := hS'.still ds rfl (fun _ ho => ho) (.inl rfl) rfl rfl fun _ => .inl rfl
  unfold unsavedNext at hstill ⊢
  rw [hrole] at hstill ⊢
  exact hstill

end

end Tracked

/-! ## One call -/

lemma writeNext_cases {i : ℕ} (hs : s.writeNext i = some s') :
    ∃ k b, k ∈ s.inFlight [] ∧ s.hash k = some b ∧ s'.hash = s.hash ∧
      s'.device = Function.update s.device k b.data ∧ s'.written = s.written ++ [(k, b.data)] := by
  unfold BlockCache.writeNext at hs
  split at hs
  · rename_i k pending done next hw
    split at hs
    · simp at hs
    · rename_i b hb
      cases hs
      refine ⟨k, b, List.mem_append_right _ (List.mem_flatMap.2 ⟨_, List.mem_of_getElem? hw, ?_⟩),
        hb, rfl, rfl, rfl⟩
      exact List.mem_append_left _ List.mem_cons_self
  · simp at hs

lemma writesTo_congr (h : s'.written = s.written) (n : BlockNumber) :
    s'.writesTo n = s.writesTo n := by
  rw [BlockCache.writesTo, h]
  rfl

variable {b : CachedBlock D}

lemma data_of_role (hb : s.hash n = some b) : b.data = if (s.role n).previous.isSome then
      (s.role n).original.getD (s.readBack n) else s.readBack n := by
  rw [role_of_cached hb, readBack_of_cached hb]
  rfl

lemma readBack_of_others (hdev : s'.device = s.device)
    (hn : s'.hash n = s.hash n ∨ s'.hash n = none ∧
      ∃ c, s.hash n = some c ∧ c.unused = true ∧ c.isDirty = false) :
    s'.readBack n = s.readBack n ∨ s'.readBack n = s.device n := by
  rcases hn with he | ⟨he, -⟩
  · refine .inl ?_
    rw [BlockCache.readBack, he, hdev]
    rfl
  · exact .inr (by rw [readBack_of_not_cached he, hdev])

lemma not_closing (hI : Inv s) : (s.role n).previous.any s.isOpen = false := by
  cases hp : (s.role n).previous with
  | none => rfl
  | some id =>
    by_contra hne
    exact hI.owners.previous_ne_of_isOpen (by simpa using hne) n hp

variable {c : Call D}

section Changes

variable {vs : List D} {u : Bool}

variable {id : TransactionId} {t : CacheTransaction}

lemma Aborted.tracked (ha : Aborted s s' id t) (h : Tracked vs u n s)
    (hu : s.Owns id n → u = false) (ds : List D) :
    Tracked (vs ++ ds) (unsavedNext u n s s') n s' := by
  have hdev : s'.device n = s.device n := by rw [ha.mapped.device]
  have hlog := writesTo_congr ha.mapped.written n
  by_cases hown : (s.role n).owner = some id
  · obtain ⟨js, w, i, hS⟩ := h
    obtain ⟨d, hd, hi⟩ := hS.saved (by rw [hown]; simp) (hu hown)
    have hrole := ha.mapped.role n
    rw [if_pos hown] at hrole
    have hread : s'.readBack n = d := by
      rw [ha.readBack n, if_pos hown, hd]
      rfl
    refine ⟨js, w, i, hS.sorted, ?_, hS.last, hS.le, ?_, fun _ => ?_, ?_, ?_⟩
    · rw [hlog]
      exact hS.log.imp fun _ _ hd => getElem?_append_some hd ds
    · rw [hdev]
      exact getElem?_append_some hS.device ds
    · rw [hread]
      exact getElem?_append_some hi ds
    · rw [hrole]
      exact fun ho => absurd rfl ho
    · rw [unsavedNext, hrole]
      simp
  · obtain ⟨hrole, hread⟩ := ha.mapped.other hown
    exact h.same _ hrole hdev hlog (.inl hread)

lemma writeNext_tracked (hI : Inv s) {i : ℕ} (hs : s.writeNext i = some s')
    (h : Tracked vs u n s) (ds : List D) : Tracked (vs ++ ds) (unsavedNext u n s s') n s' := by
  obtain ⟨k, b, hk, hb, hh, hdev, hlog⟩ := writeNext_cases hs
  have hrole : s'.role n = s.role n := by rw [BlockCache.role, hh]; rfl
  have hread := writeNext_readBack hs n
  by_cases hn : n = k
  · subst hn
    refine h.write _ hrole hread (by rw [hdev, Function.update_self]) ?_ (fun hown => ?_)
      fun hown => ⟨hI.busy.role n hk hown, fun o ho => ?_⟩
    · rw [BlockCache.writesTo, hlog]
      simp [BlockCache.writesTo]
    · rw [data_of_role hb, (hI.owners.free n hown).1]
      simp
    · rw [data_of_role hb, ho, if_pos (Option.isSome_iff_ne_none.2 (hI.busy.role n hk hown))]
      rfl
  · refine h.same _ hrole (by rw [hdev, Function.update_of_ne hn]) ?_ (.inl hread)
    rw [BlockCache.writesTo, hlog]
    simp [BlockCache.writesTo, Ne.symm hn]

variable [Zero D]

variable {k : BlockNumber}

lemma WritableIn.tracked {cleared : Bool} (hw : WritableIn s s' k id cleared t b) (hI : Inv s)
    (h : Tracked vs u n s) (ds : List D) : Tracked (vs ++ ds) (unsavedNext u n s s') n s' := by
  have hT := hw.touched
  have hdev : s'.device n = s.device n := by rw [hT.device]
  have hlog := writesTo_congr hT.written n
  have hrole := hT.role n
  by_cases hn : n = k
  · subst hn
    rw [if_pos rfl] at hrole
    rcases hT.owner with hown | hown
    · have hown' : (s'.role n).owner ≠ none := by rw [hrole]; simp
      have horig := (hI.owners.free n hown).1
      by_cases hskip : ((s.hash n).isNone && cleared) = true
      · -- fetched empty while it is not cached
        rw [Bool.and_eq_true, Option.isNone_iff_eq_none] at hskip
        have hidle := role_of_not_cached hskip.1
        refine h.forgets _ (by rw [hown]; exact hown') hown' ?_ ?_ hdev hlog
        · rw [hrole]
          simp [hskip, horig]
        · rw [hrole, hidle]
          rfl
      · refine h.preserves _ hown hown' ?_ hdev hlog
        simp [hrole, horig, hskip]
    · have howned : (s.role n).owner ≠ none := by rw [hown]; simp
      refine h.still _ (by rw [hrole, hown]; rfl) (fun d hd => ?_) (.inl (by rw [hrole]; rfl))
        hdev hlog fun ho => absurd ho howned
      simp [hrole, hd]
  · rw [if_neg hn] at hrole
    exact h.same ds hrole hdev hlog (readBack_of_others hT.device (hT.others n hn))

lemma WritableWithout.tracked {cleared : Bool} (hw : WritableWithout s s' k cleared b)
    (hI : Inv s) (h : Tracked vs u n s) (hcall : c.Fetches k none cleared) :
    Tracked (vs ++ commits n s c s') (unsavedNext u n s s') n s' := by
  have hdev : s'.device n = s.device n := by rw [hw.device]
  have hlog := writesTo_congr hw.written n
  have hrole := hw.role n
  by_cases hn : n = k
  · subst hn
    have hread : s'.readBack n = if cleared then 0 else s.readBack n := by
      rw [readBack_of_cached hw.cached, hw.contents]
    cases cleared with
    | false => exact h.same _ hrole hdev hlog (.inl hread)
    | true =>
      obtain ⟨m, rfl⟩ : ∃ m, c = .getWritable m n none true := by
        rcases hcall with hm | ⟨m, -, hne⟩
        · exact hm
        · simp at hne
      refine h.store hrole hdev hlog fun hown => ?_
      unfold commits
      rw [hrole, not_closing hI, if_neg (by simp), hread]
      exact if_pos ⟨rfl, hown⟩
  · exact h.same _ hrole hdev hlog (readBack_of_others hw.device (hw.others n hn))

lemma edit_tracked (hI : Inv s) (hb : s.hash k = some b) {id : Option TransactionId}
    (hed : s.isEditable id k = true) (h : Tracked vs u n s) (d : D) :
    Tracked (vs ++ commits n s (.edit id k d) (s.setBlock k { b with currentData := d }))
      (unsavedNext u n s (s.setBlock k { b with currentData := d })) n
      (s.setBlock k { b with currentData := d }) := by
  have hrole : (s.setBlock k { b with currentData := d }).role n = s.role n := by
    have hr := role_of_cached hb
    exact role_set (b := { b with currentData := d }) rfl hr n
  by_cases hn : n = k
  · subst hn
    refine h.store hrole rfl rfl fun hown => ?_
    cases id with
    | some id => simp [(isEditable_some hed).1] at hown
    | none =>
      have hread : (s.setBlock n { b with currentData := d }).readBack n = d := by
        simp [BlockCache.readBack]
      unfold commits
      rw [hrole, not_closing hI, if_neg (by simp), hread]
      exact if_pos ⟨rfl, hown⟩
  · refine h.same _ hrole rfl rfl (.inl ?_)
    rw [BlockCache.readBack, setBlock_hash, Function.update_of_ne hn]
    rfl

lemma Ended.tracked (he : Ended s s' id t) (hcl : Closable s id) (h : Tracked vs u n s)
    (c : Call D) : Tracked (vs ++ commits n s c s') (unsavedNext u n s s') n s' := by
  have hdev : s'.device n = s.device n := by rw [he.mapped.device]
  have hlog := writesTo_congr he.mapped.written n
  by_cases hown : (s.role n).owner = some id
  · have hrole := he.mapped.role n
    rw [if_pos hown] at hrole
    have hcommit : commits n s c s' = [s'.readBack n] := by
      unfold commits
      rw [hrole]
      exact if_pos hcl.isOpen
    rw [hcommit]
    refine h.commit hdev hlog (fun _ => rfl) ?_ ?_
    · rw [hrole]
      exact fun ho => absurd rfl ho
    · rw [unsavedNext, hrole]
      rfl
  · obtain ⟨hrole, hread⟩ := he.mapped.other hown
    exact h.same _ hrole hdev hlog (.inl hread)

lemma Detached.tracked (hd : Detached s s' id t) (hcl : Closable s id) (hI : Inv s)
    (h : Tracked vs u n s) (c : Call D) :
    Tracked (vs ++ commits n s c s') (unsavedNext u n s s') n s' := by
  have hdev : s'.device n = s.device n := by rw [hd.mapped.device]
  have hlog := writesTo_congr hd.mapped.written n
  by_cases hown : (s.role n).owner = some id
  · have hrole := hd.mapped.role n
    rw [if_pos hown, BlockRole.detached] at hrole
    have hne : some s.nextTransactionId ≠ (s.role n).owner := by
      rw [hown]
      simpa using hd.newId_ne hI.owners
    cases hp : (s.role n).parent with
    | null =>
      -- the new transaction does not get the original contents
      rw [hp] at hrole
      refine h.forgets _ (by rw [hrole]; exact hne) (by rw [hrole]; simp) (by rw [hrole]) ?_ hdev
        hlog
      rw [hrole]
      exact hcl.written n ((hI.owners.open_iff n id).2 hown)
    | copy d =>
      rw [hp] at hrole
      have hcommit : commits n s c s' = [d] := by
        unfold commits
        rw [hrole]
        exact if_pos hcl.isOpen
      rw [hcommit]
      refine h.commit hdev hlog ?_ (fun _ => by rw [hrole]) ?_
      · rw [hrole]
        simp
      · rw [unsavedNext, hrole, if_neg (by simp), if_neg hne]
        rfl
    | current =>
      rw [hp] at hrole
      have hcommit : commits n s c s' = [s'.readBack n] := by
        unfold commits
        rw [hrole]
        exact if_pos hcl.isOpen
      rw [hcommit]
      refine h.commit hdev hlog (fun _ => rfl) ?_ ?_
      · rw [hrole]
        exact fun ho => absurd rfl ho
      · rw [unsavedNext, hrole]
        rfl
  · obtain ⟨hrole, hread⟩ := hd.mapped.other hown
    exact h.same _ hrole hdev hlog (.inl hread)

end Changes

variable [Zero D]

lemma Change.tracked (hc : Change s c s') (hI : Inv s) {vs : List D}
    {u : Bool} (h : Tracked vs u n s)
    (habort : ∀ id, c = .abortTransaction id → s.Owns id n → u = false) :
    Tracked (vs ++ commits n s c s') (unsavedNext u n s s') n s' := by
  have hsame : s'.role n = s.role n → s'.device = s.device → s'.written = s.written →
      (s'.readBack n = s.readBack n ∨ s'.readBack n = s.device n) →
      Tracked (vs ++ commits n s c s') (unsavedNext u n s s') n s' := fun hr hd hw hread =>
    h.same _ hr (by rw [hd]) (writesTo_congr hw n) hread
  cases hc with
  | same => exact hsame rfl rfl rfl (.inl rfl)
  | evict hev =>
    have hrest := hev.sameRest hI
    exact hsame (hrest.role n) hrest.device hrest.written
      (readBack_of_others hrest.device (hrest.hash n))
  | @fetch m k _ allocated b hF hdata =>
    refine hsame (hF.role n) hF.device hF.written ?_
    by_cases hn : n = k
    · subst hn
      rw [readBack_of_cached hF.cached]
      cases hh : s.hash n with
      | none => exact .inr (hdata hh)
      | some b' => exact .inl (by rw [(hF.same b' hh).1, readBack_of_cached hh])
    · exact readBack_of_others hF.device (hF.others n hn)
  | put hp =>
    have hrole := put_role hI.owners hp n
    have hread := put_readBack hI.owners hp n
    rcases put_cases hI.owners hp with ⟨rfl, -⟩ | ⟨b, -, -, ⟨-, -, -, rfl⟩ | ⟨-, rfl⟩⟩
    all_goals exact hsame hrole rfl rfl (.inl hread)
  | touch _ _ hw => exact hw.tracked hI h _
  | dirty hcall hw => exact hw.tracked hI h hcall
  | edit hb hed _ => exact edit_tracked hI hb hed h _
  | start hs =>
    obtain ⟨hh, hdev, -, hlog, -⟩ := start_fields hs
    refine hsame (by rw [BlockCache.role, hh]; rfl) hdev hlog (.inl ?_)
    rw [BlockCache.readBack, hh, hdev]
    rfl
  | abort ha => exact ha.tracked h (habort _ rfl) _
  | subStart hs =>
    have hkeep : (s'.role n).owner = (s.role n).owner ∧
        (s'.role n).original = (s.role n).original ∧
        (s'.role n).previous = (s.role n).previous := by
      rw [hs.mapped.role n]
      split <;> exact ⟨rfl, rfl, rfl⟩
    exact h.still _ hkeep.1 (fun _ ho => hkeep.2.1.trans ho) (.inl hkeep.2.2)
      (by rw [hs.mapped.device]) (writesTo_congr hs.mapped.written n) fun _ => .inl (hs.readBack n)
  | @subAbort id _ t hs =>
    by_cases hown : (s.role n).owner = some id
    · have hrole := hs.mapped.role n
      rw [if_pos hown] at hrole
      have hne : (s.role n).owner ≠ none := by rw [hown]; simp
      exact h.still _ (by rw [hrole]; rfl) (fun _ ho => by rw [hrole]; exact ho)
        (.inl (by rw [hrole]; rfl)) (by rw [hs.mapped.device])
        (writesTo_congr hs.mapped.written n) fun ho => absurd ho hne
    · obtain ⟨hrole, hread⟩ := hs.mapped.other hown
      exact hsame hrole hs.mapped.device hs.mapped.written (.inl hread)
  | ended he hcl => exact he.tracked hcl h c
  | detached hd hcl _ => exact hd.tracked hcl hI h c
  | @mark _ ns _ _ _ _ _ _ =>
    obtain ⟨-, hdev, hlog, -⟩ := addAll_rest ns s
    exact hsame (addAll_role ns s n) hdev hlog (.inl (addAll_readBack s ns n))
  | write hw => exact writeNext_tracked hI hw h _
  | finish hw hp ha =>
    have hfin := finished_of_writer hI.owners hI.counts hI.unused hI.busy hw hp ha
    have hrole := hfin.role n
    have hread := hfin.readBack n
    split at hrole
    · exact h.still _ (by rw [hrole]) (fun _ ho => by rw [hrole]; exact ho) (.inr (by rw [hrole]))
        (by rw [hfin.device]) (writesTo_congr hfin.log n) fun _ => .inl hread
    · exact hsame hrole hfin.device hfin.log (.inl hread)

/-! ## Runs -/

lemma Between.commits_eq {s₁ : BlockCache D} (hb : Between s s₁ s') (hc : c.Compound)
    (n : BlockNumber) : commits n s c s₁ = [] ∧ commits n s₁ c s' = commits n s c s' := by
  have hopen : s₁.isOpen = s.isOpen := funext hb.isOpen
  have hclosed := not_closing hb.inv (n := n)
  rw [hopen] at hclosed
  unfold commits
  rw [hopen, hclosed]
  rcases hc with ⟨m, k, id, rfl⟩ | ⟨i, rfl⟩
  · exact ⟨rfl, rfl⟩
  · exact ⟨rfl, rfl⟩

omit [Zero D] in
lemma Between.unsavedNext_eq {s₁ : BlockCache D} (hb : Between s s₁ s') (u : Bool)
    (n : BlockNumber) : unsavedNext (unsavedNext u n s s₁) n s₁ s' = unsavedNext u n s s' := by
  unfold unsavedNext
  rcases hb.owners with ho | hr
  · rw [ho n]
    by_cases h₁ : (s'.role n).owner = none
    · rw [if_pos h₁, if_pos h₁]
    · rw [if_neg h₁, if_neg h₁]
      by_cases h₂ : (s'.role n).owner = (s.role n).owner
      · rw [if_pos h₂, if_pos h₂, if_neg (h₂ ▸ h₁), if_pos rfl]
      · rw [if_neg h₂, if_neg h₂]
  · rw [hr n, if_pos rfl]
    by_cases h₁ : (s₁.role n).owner = none
    · rw [if_pos h₁, if_pos h₁]
    · rw [if_neg h₁, if_neg h₁]

lemma step_tracked (hI : Inv s) (hok : Ok s c) (hs : step s c = some s')
    {vs : List D} {u : Bool} (h : Tracked vs u n s)
    (habort : ∀ id, c = .abortTransaction id → s.Owns id n → u = false) :
    Tracked (vs ++ commits n s c s') (unsavedNext u n s s') n s' := by
  rcases step_changes hI hok.apart hok.caller hs with hc | ⟨hcomp, s₁, hc, hb, hc'⟩
  · exact hc.tracked hI h habort
  · have hnot : ∀ id, c ≠ .abortTransaction id := by
      rcases hcomp with ⟨m, k, id, rfl⟩ | ⟨i, rfl⟩ <;> simp
    have h₁ := hc.tracked hI h fun id he => absurd he (hnot id)
    have h₂ := hc'.tracked hb.inv h₁ fun id he => absurd he (hnot id)
    obtain ⟨hnil, heq⟩ := hb.commits_eq hcomp n
    rw [hnil, List.append_nil, heq, hb.unsavedNext_eq] at h₂
    exact h₂

/-- In every run whose aborts restore all blocks of their transactions, the writes to a block are
committed versions of it, in the order in which these were committed. -/
theorem writes_committed {device : BlockNumber → D} {maxBlocks : ℕ} {readOnly : Bool}
    {h : History (BlockCache D) (Call D)} {s : BlockCache D}
    (hr : Run step Ok (BlockCache.create device maxBlocks readOnly) h s) (ha : AbortsRestore h)
    (n : BlockNumber) : ∃ js : List ℕ, js.Pairwise (· ≤ ·) ∧
      List.Forall₂ (fun d j => (versions n h s)[j]? = some d) (s.writesTo n) js := by
  have htracked : AbortsRestore h → Tracked (versions n h s) (unsaved n h s) n s := by
    refine hr.history (P := fun h s => AbortsRestore h →
      Tracked (versions n h s) (unsaved n h s) n s) (fun _ => ?_) ?_
    · refine ⟨[], 0, 0, .nil, .nil, by simp, Nat.le_refl 0, rfl, fun _ => rfl, ?_, by simp [unsaved]⟩
      simp [BlockCache.role, roleOf]
    · rintro h s c s' hr ih hok hs ⟨ha, hlast⟩
      exact step_tracked (inv_run (fun _ _ hc => hc) hr) hok hs (ih ha) fun id hc hown =>
        hlast id n hc hown
  obtain ⟨js, w, i, hS⟩ := htracked ha
  exact ⟨js, hS.sorted, hS.log⟩

omit [Zero D] in
lemma abortsRestore_of_not_mem {h : History (BlockCache D) (Call D)}
    (hh : ∀ e ∈ h, ∀ id, e.2 ≠ .abortTransaction id) : AbortsRestore h := by
  induction h with
  | nil => trivial
  | cons e h ih =>
    exact ⟨ih fun e' he' => hh e' (List.mem_cons_of_mem _ he'),
      fun id _ hc => absurd hc (hh e List.mem_cons_self id)⟩

/-- A 5 is stored into block 0, in transaction 1, which is then ended or aborted; the block is
written back. -/
def storeAndWrite (cleared : Bool) (last : Call ℕ) : List (Call ℕ) :=
  storeFive cleared ++ [.put 0, last, .syncEtc 0 1, .writeBlock 0]

/-- The 5 of a transaction that was ended is written. -/
theorem writes_committed_five : ∃ h, ∃ js : List ℕ, js.Pairwise (· ≤ ·) ∧
    List.Forall₂ (fun d j => (versions 0 h (outcome step sevens
      (storeAndWrite false (.endTransaction 1))))[j]? = some d) [5] js := by
  obtain ⟨h, hr, hp⟩ := run_outcome step ok_of_check sevens
    (storeAndWrite false (.endTransaction 1))
    (fun h => h.all fun e => match e.2 with
      | .abortTransaction _ => false
      | _ => true) (by decide +kernel)
  have hrestore : AbortsRestore h := by
    refine abortsRestore_of_not_mem fun e he id hc => ?_
    have := List.all_eq_true.1 hp e he
    simp [hc] at this
  have hwrites : (outcome step sevens (storeAndWrite false (.endTransaction 1))).writesTo 0
      = [5] := by decide +kernel
  obtain ⟨js, hsorted, hlog⟩ := writes_committed hr hrestore 0
  rw [hwrites] at hlog
  exact ⟨h, js, hsorted, hlog⟩

/-- The 5 of an aborted transaction is written, if the block was fetched empty while it was not
cached: its only version is the 7 on the device. -/
theorem aborted_contents_written : ¬ ∀ (device : BlockNumber → ℕ) (maxBlocks : ℕ)
    (readOnly : Bool) (h : History (BlockCache ℕ) (Call ℕ)) (s : BlockCache ℕ),
    Run step callerOk (BlockCache.create device maxBlocks readOnly) h s → ∀ n,
      ∃ js : List ℕ, js.Pairwise (· ≤ ·) ∧
        List.Forall₂ (fun d j => (versions n h s)[j]? = some d) (s.writesTo n) js := by
  intro hclaim
  obtain ⟨h, hr, hp⟩ := run_outcome step ok_of_check sevens
    (storeAndWrite true (.abortTransaction 1))
    (fun h => versions 0 h (outcome step sevens (storeAndWrite true (.abortTransaction 1)))
      == [7]) (by decide +kernel)
  have hwrites : (outcome step sevens (storeAndWrite true (.abortTransaction 1))).writesTo 0
      = [5] := by decide +kernel
  obtain ⟨js, -, hlog⟩ := hclaim _ _ _ h _ (hr.mono fun _ _ hc => hc.caller) 0
  rw [hwrites, beq_iff_eq.1 hp] at hlog
  cases hlog with
  | @cons _ j _ _ hj _ =>
    rcases j with - | j
    · simp at hj
    · simp at hj

end Haiku.Cache
