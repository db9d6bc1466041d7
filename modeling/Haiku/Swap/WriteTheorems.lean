import Haiku.Swap.BookTheorems

/-!
# What `Write()` has written where

`VMAnonymousCache::Write()` with its writes to the device, and when the slots of the pages are
those to which the data of the pages went.
-/

namespace Haiku.Swap

variable {P : Type} {s s' : State P} {id : ℕ}

/-! ## The writes to the device -/

/-- A write to a swap file: `count` pages of a vector, from the one at `offset` on, go to the
slots from `slot` on. The vector is named by the page of the cache it begins with. -/
structure DeviceWrite where
  vector : ℕ
  offset : ℕ
  slot : ℕ
  count : ℕ

structure Writing (P : Type) where
  state : State P
  pagesLeft : ℤ
  answers : List WriteAnswer
  log : List DeviceWrite

/-- `writeVector` with the writes to the device: `vectorBase` is that of the page `j`. -/
def writeVectorLog (id pageIndex pageCount : ℕ) :
    State P → (j n : ℕ) → (pagesLeft : ℤ) → List DeviceWrite → List WriteAnswer →
      Option (Writing P × Bool)
  | s, j, n, pagesLeft, log, answers =>
    if j < pageCount then
      match answers with
      | [] => none
      | a :: answers => do
        let n := n / 2 ^ a.halvings
        let s ← swapSlotAlloc s n a.slot
        if a.ok then
          -- The pages from the beginning of the vector are meant in each round.
          writeVectorLog id pageIndex pageCount (swapBlockBuild s id pageIndex a.slot n) (j + n) n
            (pagesLeft - n) (log ++ [⟨pageIndex, j, a.slot, n⟩]) answers
        else
          let s ← swapSlotDealloc (addAllocated s id (-(pagesLeft * pageSize))) a.slot n
          some (⟨s, pagesLeft, answers, log⟩, false)
    else some (⟨s, pagesLeft, answers, log⟩, true)
  termination_by structural _ _ _ _ _ answers => answers

/-- The second loop of `Write()`, up to the assertion behind it. -/
def writeVectorsLog (id : ℕ) : (w : Writing P) → (pageIndex : ℕ) → List ℕ →
    Option (Writing P × Status)
  | w, _, [] => some (w, .ok)
  | w, pageIndex, pageCount :: vecs => do
    let (w, completed) ←
      writeVectorLog id pageIndex pageCount w.state 0 pageCount w.pagesLeft w.log w.answers
    if completed then writeVectorsLog id w (pageIndex + pageCount) vecs
    else some (w, .error)

def vectorsAt : (pageIndex : ℕ) → List ℕ → List (ℕ × ℕ)
  | _, [] => []
  | pageIndex, pageCount :: vecs => (pageIndex, pageCount) :: vectorsAt (pageIndex + pageCount) vecs

lemma writeVectorLog_eq (id pageIndex pageCount : ℕ) (answers : List WriteAnswer) :
    ∀ (s : State P) (j n : ℕ) (pagesLeft : ℤ) (log : List DeviceWrite),
      writeVector id pageIndex pageCount s j n pagesLeft answers =
        (writeVectorLog id pageIndex pageCount s j n pagesLeft log answers).map
          fun r => (r.1.state, r.1.pagesLeft, r.1.answers, r.2) := by
  induction answers with
  | nil =>
    intro s j n pagesLeft log
    rw [writeVector, writeVectorLog]
    split <;> rfl
  | cons a answers ih =>
    intro s j n pagesLeft log
    rw [writeVector, writeVectorLog]
    split
    · dsimp only
      cases swapSlotAlloc s (n / 2 ^ a.halvings) a.slot with
      | none => rfl
      | some s =>
        simp only [Option.bind_eq_bind, Option.bind_some]
        split
        · exact ih _ _ _ _ _
        · cases swapSlotDealloc (addAllocated s id (-(pagesLeft * pageSize))) a.slot
              (n / 2 ^ a.halvings) <;> rfl
    · rfl

variable (id) in
lemma writeVectors_eq (vecs : List ℕ) : ∀ (w : Writing P) (pageIndex : ℕ),
    writeVectors w.state id pageIndex w.pagesLeft w.answers vecs =
      (writeVectorsLog id w pageIndex vecs).bind fun r =>
        if r.2 = .ok ∧ r.1.pagesLeft ≠ 0 then none else some (r.1.state, r.2) := by
  induction vecs with
  | nil =>
    intro w pageIndex
    show (if w.pagesLeft = 0 then _ else _) = if Status.ok = .ok ∧ w.pagesLeft ≠ 0 then _ else _
    split <;> simp_all
  | cons pageCount vecs ih =>
    intro w pageIndex
    rw [writeVectors, writeVectorsLog,
      writeVectorLog_eq id pageIndex pageCount w.answers w.state 0 pageCount w.pagesLeft w.log]
    cases writeVectorLog id pageIndex pageCount w.state 0 pageCount w.pagesLeft w.log
        w.answers with
    | none => rfl
    | some r =>
      obtain ⟨w', completed⟩ := r
      cases completed with
      | true => exact ih w' (pageIndex + pageCount)
      | false => rfl

/-! ## Pages that get a slot -/

lemma slotAt_buildBlock (s : State P) (id start slot count block block' : ℕ)
    (i : Fin blockPages) :
    slotAt (buildBlock s id start slot count block) id block' i =
      if block' = block ∧ isCovered start count block' i = true
      then some (slot + (pageOf block' i - start)) else slotAt s id block' i := by
  unfold buildBlock
  dsimp only
  rw [slotAt_insert]
  by_cases hblock : block' = block
  · subst hblock
    rw [if_pos ⟨rfl, rfl⟩]
    by_cases hcovered : isCovered start count block' i = true
    · rw [if_pos ⟨rfl, hcovered⟩]
      exact if_pos hcovered
    · rw [if_neg fun h => hcovered h.2]
      dsimp only
      rw [if_neg hcovered, slotAt]
      cases s.blocks.lookup (id, block') <;> rfl
  · rw [if_neg fun h => hblock h.2, if_neg fun h => hblock h.1]

lemma slotAt_buildBlocks (id start slot count block : ℕ) (i : Fin blockPages) (l : List ℕ) :
    ∀ s : State P,
      slotAt (l.foldl (fun s block => buildBlock s id start slot count block) s) id block i =
        if block ∈ l ∧ isCovered start count block i = true
        then some (slot + (pageOf block i - start)) else slotAt s id block i := by
  induction l with
  | nil =>
    intro s
    rw [if_neg fun h => absurd h.1 List.not_mem_nil]
    rfl
  | cons b l ih =>
    intro s
    rw [List.foldl_cons, ih, slotAt_buildBlock]
    by_cases hcovered : isCovered start count block i = true
    · simp only [hcovered, and_true, List.mem_cons]
      by_cases hb : block = b
      · simp only [hb, true_or, if_true, ite_self]
      · simp only [hb, false_or, if_false]
    · simp only [hcovered, and_false, if_false, Bool.false_eq_true]

lemma getAddress_swapBlockBuild (s : State P) (id start slot count p : ℕ) :
    getAddress (swapBlockBuild s id start slot count) id p =
      if start ≤ p ∧ p < start + count then some (slot + (p - start)) else getAddress s id p := by
  rw [getAddress_eq_slotAt, swapBlockBuild, slotAt_buildBlocks, pageOf_entryOf,
    ← getAddress_eq_slotAt]
  have hiff : (p / blockPages ∈ blockRange start count ∧
      isCovered start count (p / blockPages) (entryOf p) = true) ↔
      start ≤ p ∧ p < start + count := by
    rw [isCovered_iff, pageOf_entryOf, mem_blockRange]
    constructor
    · exact fun h => h.2
    · intro h
      refine ⟨?_, h⟩
      simp only [blockPages]
      omega
  rw [if_congr hiff rfl rfl]

@[simp] lemma allocated_swapBlockBuild (s : State P) (id start slot count : ℕ) :
    (swapBlockBuild s id start slot count).allocated = s.allocated := by
  unfold swapBlockBuild
  generalize blockRange start count = l
  induction l generalizing s with
  | nil => rfl
  | cons block l ih => exact ih (buildBlock s id start slot count block)

/-! ## A vector -/

/-- What a vector is left with, from the page `j` on: only its own pages get slots, and the first
one gets a slot that was free. -/
structure VectorDone (s : State P) (w : Writing P) (log : List DeviceWrite)
    (id pageIndex pageCount j : ℕ) : Prop where
  mono : ∀ x, s.allocated x = true → w.state.allocated x = true
  kept : ∀ p, ¬(pageIndex ≤ p ∧ p < pageIndex + pageCount) →
    getAddress w.state id p = getAddress s id p
  log : ∃ ds, w.log = log ++ ds ∧ ∀ d ∈ ds, d.vector = pageIndex ∧ j ≤ d.offset
  first : j < pageCount → ∃ x, getAddress w.state id pageIndex = some x ∧ s.allocated x = false

variable {pageIndex pageCount : ℕ} {w : Writing P} {completed : Bool}

lemma writeVectorLog_spec (answers : List WriteAnswer) : ∀ (s : State P) (j n : ℕ) (pagesLeft : ℤ)
      (log : List DeviceWrite), (∀ a ∈ answers, a.ok = true) → n ≤ pageCount →
      writeVectorLog id pageIndex pageCount s j n pagesLeft log answers = some (w, completed) →
      completed = true ∧ (∃ taken, answers = taken ++ w.answers) ∧
        VectorDone s w log id pageIndex pageCount j := by
  have hend : ∀ (s : State P) (j n : ℕ) (pagesLeft : ℤ) (log : List DeviceWrite)
      (answers : List WriteAnswer), ¬j < pageCount →
      some ((⟨s, pagesLeft, answers, log⟩ : Writing P), true) = some (w, completed) →
      completed = true ∧ (∃ taken, answers = taken ++ w.answers) ∧
        VectorDone s w log id pageIndex pageCount j := by
    intro s j n pagesLeft log answers hj h
    rw [Option.some.injEq, Prod.mk.injEq] at h
    obtain ⟨rfl, rfl⟩ := h
    exact ⟨rfl, ⟨[], rfl⟩, fun _ h => h, fun _ _ => rfl,
      ⟨[], (List.append_nil _).symm, fun d hd => absurd hd List.not_mem_nil⟩, fun h => absurd h hj⟩
  induction answers with
  | nil =>
    intro s j n pagesLeft log _ _ h
    rw [writeVectorLog] at h
    split at h
    · cases h
    · next hj => exact hend s j n pagesLeft log [] hj h
  | cons a answers ih =>
    intro s j n pagesLeft log hok hn h
    rw [writeVectorLog] at h
    split at h
    · next hj =>
      dsimp only at h
      obtain ⟨s₁, hs₁, h⟩ := Option.bind_eq_some_iff.1 h
      rw [if_pos (hok a List.mem_cons_self)] at h
      obtain ⟨hpos, hfree, rfl⟩ := swapSlotAlloc_spec hs₁
      have hle : n / 2 ^ a.halvings ≤ pageCount := (Nat.div_le_self _ _).trans hn
      obtain ⟨hcompleted, ⟨taken, htaken⟩, hdone⟩ := ih _ _ _ _ _
        (fun b hb => hok b (List.mem_cons_of_mem _ hb)) hle h
      have hmono : ∀ x, s.allocated x = true →
          (decide (a.slot ≤ x ∧ x < a.slot + n / 2 ^ a.halvings) || s.allocated x) = true := by
        intro x hx
        rw [hx, Bool.or_true]
      refine ⟨hcompleted, ⟨a :: taken, by rw [htaken]; rfl⟩, fun x hx => ?_, fun p hp => ?_, ?_,
        fun _ => ?_⟩
      · apply hdone.mono
        rw [allocated_swapBlockBuild]
        exact hmono x hx
      · rw [hdone.kept p hp, getAddress_swapBlockBuild, if_neg (by omega)]
        rfl
      · obtain ⟨ds, hlog, hds⟩ := hdone.log
        refine ⟨⟨pageIndex, j, a.slot, n / 2 ^ a.halvings⟩ :: ds, ?_, ?_⟩
        · rw [hlog, List.append_assoc]
          rfl
        · intro d hd
          rcases List.mem_cons.1 hd with rfl | hd
          · exact ⟨rfl, le_rfl⟩
          · exact ⟨(hds d hd).1, (Nat.le_add_right _ _).trans (hds d hd).2⟩
      · -- Either this is the last part of the vector, or a later one has the first page.
        by_cases hmore : j + n / 2 ^ a.halvings < pageCount
        · obtain ⟨x, hx, hxfree⟩ := hdone.first hmore
          refine ⟨x, hx, ?_⟩
          rw [allocated_swapBlockBuild] at hxfree
          by_contra hcon
          rw [Bool.not_eq_false] at hcon
          have hset := hmono x hcon
          dsimp only at hxfree
          rw [hset] at hxfree
          cases hxfree
        · rw [writeVectorLog.eq_def] at h
          dsimp only at h
          rw [if_neg hmore, Option.some.injEq, Prod.mk.injEq] at h
          obtain ⟨rfl, -⟩ := h
          refine ⟨a.slot, ?_, (hfree 0 hpos).1⟩
          dsimp only
          rw [getAddress_swapBlockBuild, if_pos ⟨le_rfl, by omega⟩, Nat.sub_self, Nat.add_zero]
    · next hj => exact hend s j n pagesLeft log _ hj h

variable {answers : List WriteAnswer} {pagesLeft : ℤ} {log : List DeviceWrite}

lemma writeVectorLog_split {a : WriteAnswer} (hok : ∀ b ∈ a :: answers, b.ok = true)
    (hpos : 0 < pageCount) (hsplit : a.halvings ≠ 0)
    (h : writeVectorLog id pageIndex pageCount s 0 pageCount pagesLeft log (a :: answers) =
      some (w, completed)) :
    ∃ x y ds, getAddress w.state id pageIndex = some y ∧ x ≠ y ∧
      w.log = log ++ ds ∧ ∀ d ∈ ds, d.vector = pageIndex ∧ (d.offset = 0 → d.slot = x) := by
  rw [writeVectorLog, if_pos hpos] at h
  dsimp only at h
  obtain ⟨s₁, hs₁, h⟩ := Option.bind_eq_some_iff.1 h
  rw [if_pos (hok a List.mem_cons_self)] at h
  obtain ⟨hn, -, rfl⟩ := swapSlotAlloc_spec hs₁
  have hshort : pageCount / 2 ^ a.halvings < pageCount :=
    Nat.div_lt_self hpos (Nat.one_lt_two_pow hsplit)
  obtain ⟨-, -, hdone⟩ := writeVectorLog_spec answers _ _ _ _ _
    (fun b hb => hok b (List.mem_cons_of_mem _ hb)) hshort.le h
  obtain ⟨y, hy, hyfree⟩ := hdone.first (by omega)
  obtain ⟨ds, hlog, hds⟩ := hdone.log
  refine ⟨a.slot, y, ⟨pageIndex, 0, a.slot, pageCount / 2 ^ a.halvings⟩ :: ds, hy, ?_, ?_, ?_⟩
  · rintro rfl
    have hset : (decide (a.slot ≤ a.slot ∧ a.slot < a.slot + pageCount / 2 ^ a.halvings) ||
        s.allocated a.slot) = true := by
      rw [decide_eq_true ⟨le_rfl, by omega⟩, Bool.true_or]
    rw [allocated_swapBlockBuild] at hyfree
    dsimp only at hyfree
    rw [hset] at hyfree
    cases hyfree
  · rw [hlog, List.append_assoc]
    rfl
  · intro d hd
    rcases List.mem_cons.1 hd with rfl | hd
    · exact ⟨rfl, fun _ => rfl⟩
    · exact ⟨(hds d hd).1, fun hzero => absurd (hds d hd).2 (by omega)⟩

lemma writeVectorLog_whole {a : WriteAnswer} (hok : a.ok = true) (hpos : 0 < pageCount)
    (hwhole : a.halvings = 0)
    (h : writeVectorLog id pageIndex pageCount s 0 pageCount pagesLeft log (a :: answers) =
      some (w, completed)) :
    ∃ s₁, swapSlotAlloc s pageCount a.slot = some s₁ ∧ completed = true ∧
      w = ⟨swapBlockBuild s₁ id pageIndex a.slot pageCount, pagesLeft - pageCount, answers,
        log ++ [⟨pageIndex, 0, a.slot, pageCount⟩]⟩ := by
  rw [writeVectorLog, if_pos hpos, hwhole, Nat.pow_zero, Nat.div_one] at h
  dsimp only at h
  obtain ⟨s₁, hs₁, h⟩ := Option.bind_eq_some_iff.1 h
  rw [if_pos hok, Nat.zero_add, writeVectorLog.eq_def] at h
  dsimp only at h
  rw [if_neg (Nat.lt_irrefl _), Option.some.injEq, Prod.mk.injEq] at h
  exact ⟨s₁, hs₁, h.2.symm, h.1.symm⟩

lemma writeVectorLog_empty {n : ℕ}
    (h : writeVectorLog id pageIndex 0 s 0 n pagesLeft log answers = some (w, completed)) :
    completed = true ∧ w = ⟨s, pagesLeft, answers, log⟩ := by
  rw [writeVectorLog.eq_def] at h
  dsimp only at h
  rw [if_neg (Nat.lt_irrefl 0), Option.some.injEq, Prod.mk.injEq] at h
  exact ⟨h.2.symm, h.1.symm⟩

/-! ## The whole request -/

/-- The data of all pages of the vectors went to the slots that the pages are mapped to. -/
def DataMapped (w : Writing P) (id pageIndex : ℕ) (vecs : List ℕ) : Prop :=
  ∀ v ∈ vectorsAt pageIndex vecs, ∀ offset < v.2, ∃ d ∈ w.log, d.vector = v.1 ∧
    d.offset ≤ offset ∧ offset < d.offset + d.count ∧
    getAddress w.state id (v.1 + offset) = some (d.slot + (offset - d.offset))

/-- What `Write()` has to achieve: no pages are left, the data of each page is in the slot that
the page is mapped to, distinct pages have distinct slots, and as many slots have been allocated
as there are pages. -/
structure Written (s₀ : State P) (w : Writing P) (id pageIndex : ℕ) (vecs : List ℕ) : Prop where
  noneLeft : w.pagesLeft = 0
  data : DataMapped w id pageIndex vecs
  distinct : ∀ p q, pageIndex ≤ p → p < pageIndex + vecs.sum → pageIndex ≤ q →
    q < pageIndex + vecs.sum → getAddress w.state id p = getAddress w.state id q → p = q
  allocated : {x | w.state.allocated x = true ∧ s₀.allocated x = false}.ncard = vecs.sum

def Whole (vecs : List ℕ) (answers : List WriteAnswer) : Prop :=
  ∀ a ∈ answers.take (vecs.countP (0 < ·)), a.halvings = 0

lemma whole_zero_cons (vecs : List ℕ) (answers : List WriteAnswer) :
    Whole (0 :: vecs) answers ↔ Whole vecs answers := by
  unfold Whole
  rw [List.countP_cons_of_neg (by decide)]

lemma whole_cons (hpos : 0 < pageCount) (vecs : List ℕ) (a : WriteAnswer)
    (answers : List WriteAnswer) :
    Whole (pageCount :: vecs) (a :: answers) ↔ a.halvings = 0 ∧ Whole vecs answers := by
  unfold Whole
  rw [List.countP_cons_of_pos (by exact decide_eq_true hpos), List.take_succ_cons,
    List.forall_mem_cons]

variable {vecs : List ℕ}

lemma writeVectorsLog_kept : ∀ {w w' : Writing P} {pageIndex : ℕ}
    {status : Status}, (∀ a ∈ w.answers, a.ok = true) →
    writeVectorsLog id w pageIndex vecs = some (w', status) →
    (∀ p < pageIndex, getAddress w'.state id p = getAddress w.state id p) ∧
      ∃ ds, w'.log = w.log ++ ds ∧ ∀ d ∈ ds, pageIndex ≤ d.vector := by
  induction vecs with
  | nil =>
    intro w w' pageIndex status _ h
    rw [writeVectorsLog, Option.some.injEq, Prod.mk.injEq] at h
    obtain ⟨rfl, -⟩ := h
    exact ⟨fun _ _ => rfl, [], (List.append_nil _).symm, fun d hd => absurd hd List.not_mem_nil⟩
  | cons pageCount vecs ih =>
    intro w w' pageIndex status hok h
    rw [writeVectorsLog] at h
    obtain ⟨⟨w₁, completed⟩, hw₁, h⟩ := Option.bind_eq_some_iff.1 h
    obtain ⟨hcompleted, ⟨taken, htaken⟩, hdone⟩ :=
      writeVectorLog_spec w.answers _ _ _ _ _ hok le_rfl hw₁
    dsimp only at h
    rw [if_pos hcompleted] at h
    have hok₁ : ∀ a ∈ w₁.answers, a.ok = true := by
      intro a ha
      apply hok
      rw [htaken]
      exact List.mem_append_right _ ha
    obtain ⟨hkept, ds', hlog', hds'⟩ := ih hok₁ h
    obtain ⟨ds, hlog, hds⟩ := hdone.log
    refine ⟨fun p hp => ?_, ds ++ ds', ?_, fun d hd => ?_⟩
    · rw [hkept p (by omega), hdone.kept p (by omega)]
    · rw [hlog', hlog, List.append_assoc]
    · rcases List.mem_append.1 hd with hd | hd
      · exact (hds d hd).1.ge
      · exact (Nat.le_add_right _ _).trans (hds' d hd)

lemma whole_of_dataMapped : ∀ {w w' : Writing P} {pageIndex : ℕ}
    {status : Status}, (∀ a ∈ w.answers, a.ok = true) → (∀ d ∈ w.log, d.vector < pageIndex) →
    writeVectorsLog id w pageIndex vecs = some (w', status) →
    DataMapped w' id pageIndex vecs → Whole vecs w.answers := by
  induction vecs with
  | nil =>
    intro w w' pageIndex status _ _ _ _ a ha
    exact absurd ha List.not_mem_nil
  | cons pageCount vecs ih =>
    intro w w' pageIndex status hok hlogged h hdata
    obtain ⟨s, pagesLeft, answers, log⟩ := w
    rw [writeVectorsLog] at h
    obtain ⟨⟨w₁, completed⟩, hw₁, hnext⟩ := Option.bind_eq_some_iff.1 h
    dsimp only at hok hlogged hw₁ hnext ⊢
    have hrest : DataMapped w' id (pageIndex + pageCount) vecs :=
      fun v hv => hdata v (List.mem_cons_of_mem _ hv)
    rcases Nat.eq_zero_or_pos pageCount with rfl | hpos
    · obtain ⟨rfl, rfl⟩ := writeVectorLog_empty hw₁
      rw [whole_zero_cons]
      exact ih hok hlogged hnext hrest
    · cases answers with
      | nil =>
        rw [writeVectorLog, if_pos hpos] at hw₁
        cases hw₁
      | cons a answers =>
        rw [whole_cons hpos]
        have hok₁ : ∀ b ∈ answers, b.ok = true := fun b hb => hok b (List.mem_cons_of_mem _ hb)
        by_cases hwhole : a.halvings = 0
        · obtain ⟨s₁, -, rfl, rfl⟩ :=
            writeVectorLog_whole (hok a List.mem_cons_self) hpos hwhole hw₁
          refine ⟨hwhole, ih (w := ⟨_, _, answers, _⟩) hok₁ (fun d hd => ?_) hnext hrest⟩
          rcases List.mem_append.1 hd with hd | hd
          · exact (hlogged d hd).trans_le (Nat.le_add_right _ _)
          · rw [List.mem_singleton.1 hd]
            dsimp only
            omega
        · -- The first page of the vector is where its data is not.
          exfalso
          obtain ⟨hcompleted, ⟨taken, htaken⟩, -⟩ :=
            writeVectorLog_spec _ _ _ _ _ _ hok le_rfl hw₁
          obtain ⟨x, y, ds, hy, hxy, hlog, hds⟩ := writeVectorLog_split hok hpos hwhole hw₁
          rw [if_pos hcompleted] at hnext
          have hok₂ : ∀ b ∈ w₁.answers, b.ok = true := by
            intro b hb
            apply hok
            rw [htaken]
            exact List.mem_append_right _ hb
          obtain ⟨hkept, ds', hlog', hds'⟩ := writeVectorsLog_kept hok₂ hnext
          obtain ⟨d, hd, hvector, hoffset, -, haddress⟩ :=
            hdata (pageIndex, pageCount) List.mem_cons_self 0 hpos
          dsimp only at hvector haddress
          have hzero : d.offset = 0 := by omega
          rw [Nat.add_zero, hkept pageIndex (by omega), hy, hzero, Nat.sub_zero, Nat.add_zero,
            Option.some.injEq] at haddress
          rw [hlog', hlog] at hd
          rcases List.mem_append.1 hd with hd | hd
          · rcases List.mem_append.1 hd with hd | hd
            · exact absurd (hlogged d hd) (by omega)
            · rw [(hds d hd).2 hzero] at haddress
              exact hxy haddress.symm
          · exact absurd (hds' d hd) (by omega)

/-- What holds behind vectors that have been granted in one piece each. -/
structure WholeDone (w w' : Writing P) (id pageIndex : ℕ) (vecs : List ℕ) : Prop where
  left : w'.pagesLeft = w.pagesLeft - vecs.sum
  log : ∀ d ∈ w.log, d ∈ w'.log
  data : DataMapped w' id pageIndex vecs
  kept : ∀ p, ¬(pageIndex ≤ p ∧ p < pageIndex + vecs.sum) →
    getAddress w'.state id p = getAddress w.state id p
  new : ∀ p, pageIndex ≤ p → p < pageIndex + vecs.sum →
    ∃ x, getAddress w'.state id p = some x ∧ w.state.allocated x = false
  distinct : ∀ p q, pageIndex ≤ p → p < pageIndex + vecs.sum → pageIndex ≤ q →
    q < pageIndex + vecs.sum → getAddress w'.state id p = getAddress w'.state id q → p = q
  allocated : ∀ x, w'.state.allocated x = true ↔ w.state.allocated x = true ∨
    ∃ p, pageIndex ≤ p ∧ p < pageIndex + vecs.sum ∧ getAddress w'.state id p = some x

lemma WholeDone.cons {w' : Writing P} {s₁ : State P} {slot : ℕ}
 (hs₁ : swapSlotAlloc w.state pageCount slot = some s₁)
    (h : WholeDone ⟨swapBlockBuild s₁ id pageIndex slot pageCount, w.pagesLeft - pageCount, answers,
      w.log ++ [⟨pageIndex, 0, slot, pageCount⟩]⟩ w' id (pageIndex + pageCount) vecs) :
    WholeDone w w' id pageIndex (pageCount :: vecs) := by
  obtain ⟨hpos, hfree, rfl⟩ := swapSlotAlloc_spec hs₁
  have hsum : pageIndex + (pageCount :: vecs).sum = pageIndex + pageCount + vecs.sum := by
    rw [List.sum_cons, Nat.add_assoc]
  have hfirst : ∀ p, pageIndex ≤ p → p < pageIndex + pageCount →
      getAddress w'.state id p = some (slot + (p - pageIndex)) := by
    intro p hle hlt
    rw [h.kept p (by omega)]
    dsimp only
    rw [getAddress_swapBlockBuild, if_pos ⟨hle, hlt⟩]
  have hallocated := h.allocated
  have hnew := h.new
  dsimp only at hallocated hnew
  simp only [allocated_swapBlockBuild, Bool.or_eq_true, decide_eq_true_eq] at hallocated
  simp only [allocated_swapBlockBuild, Bool.or_eq_false_iff, decide_eq_false_iff_not] at hnew
  refine ⟨?_, fun d hd => ?_, fun v hv => ?_, fun p hp => ?_, fun p hle hlt => ?_, ?_, fun x => ?_⟩
  · rw [h.left, List.sum_cons]
    dsimp only
    push_cast
    ring
  · exact h.log d (List.mem_append_left _ hd)
  · rcases List.mem_cons.1 hv with rfl | hv
    · intro offset hoffset
      refine ⟨_, h.log _ (List.mem_append_right _ (List.mem_singleton_self _)), rfl,
        Nat.zero_le _, by dsimp only at hoffset ⊢; omega, ?_⟩
      dsimp only at hoffset ⊢
      rw [hfirst _ (Nat.le_add_right _ _) (by omega), Nat.add_sub_cancel_left, Nat.sub_zero]
    · exact h.data v hv
  · rw [hsum] at hp
    rw [h.kept p (by omega)]
    dsimp only
    rw [getAddress_swapBlockBuild, if_neg (by omega)]
    rfl
  · by_cases hin : p < pageIndex + pageCount
    · exact ⟨_, hfirst p hle hin, (hfree (p - pageIndex) (by omega)).1⟩
    · obtain ⟨x, hx, -, hxfree⟩ := hnew p (by omega) (by omega)
      exact ⟨x, hx, hxfree⟩
  · -- The slots of the first vector are not free anymore when the others get theirs.
    have hcross : ∀ p q, pageIndex ≤ p → p < pageIndex + pageCount → pageIndex + pageCount ≤ q →
        q < pageIndex + pageCount + vecs.sum →
        getAddress w'.state id p ≠ getAddress w'.state id q := by
      intro p q hp hp' hq hq' heq
      obtain ⟨x, hx, hother, -⟩ := hnew q hq hq'
      rw [hfirst p hp hp', hx, Option.some.injEq] at heq
      omega
    intro p q hp hp' hq hq' heq
    rw [hsum] at hp' hq'
    by_cases hpin : p < pageIndex + pageCount
    · by_cases hqin : q < pageIndex + pageCount
      · rw [hfirst p hp hpin, hfirst q hq hqin, Option.some.injEq] at heq
        omega
      · exact absurd heq (hcross p q hp hpin (by omega) hq')
    · by_cases hqin : q < pageIndex + pageCount
      · exact absurd heq.symm (hcross q p hq hqin (by omega) hp')
      · exact h.distinct p q (by omega) hp' (by omega) hq' heq
  · rw [hallocated, hsum]
    constructor
    · rintro ((⟨hle, hlt⟩ | hset) | ⟨p, hle, hlt, hp⟩)
      · refine .inr ⟨pageIndex + (x - slot), by omega, by omega, ?_⟩
        rw [hfirst _ (by omega) (by omega), Option.some.injEq]
        omega
      · exact .inl hset
      · exact .inr ⟨p, by omega, hlt, hp⟩
    · rintro (hset | ⟨p, hle, hlt, hp⟩)
      · exact .inl (.inr hset)
      · by_cases hin : p < pageIndex + pageCount
        · rw [hfirst p hle hin, Option.some.injEq] at hp
          exact .inl (.inl ⟨by omega, by omega⟩)
        · exact .inr ⟨p, by omega, hlt, hp⟩

lemma writeVectorsLog_whole : ∀ {w w' : Writing P} {pageIndex : ℕ}
    {status : Status}, (∀ a ∈ w.answers, a.ok = true) → Whole vecs w.answers →
    writeVectorsLog id w pageIndex vecs = some (w', status) →
    status = .ok ∧ WholeDone w w' id pageIndex vecs := by
  induction vecs with
  | nil =>
    intro w w' pageIndex status _ _ h
    rw [writeVectorsLog, Option.some.injEq, Prod.mk.injEq] at h
    obtain ⟨rfl, rfl⟩ := h
    refine ⟨rfl, ?_, fun _ h => h, fun v hv => absurd hv List.not_mem_nil, fun _ _ => rfl, ?_, ?_,
      fun x => ⟨.inl, ?_⟩⟩
    · rw [List.sum_nil, Nat.cast_zero, sub_zero]
    · intro p hle hlt
      exact absurd hle (Nat.not_le.2 hlt)
    · intro p q hle hlt
      exact absurd hle (Nat.not_le.2 hlt)
    · rintro (h | ⟨p, hle, hlt, -⟩)
      · exact h
      · exact absurd hle (Nat.not_le.2 hlt)
  | cons pageCount vecs ih =>
    intro w w' pageIndex status hok hwhole h
    obtain ⟨s, pagesLeft, answers, log⟩ := w
    rw [writeVectorsLog] at h
    obtain ⟨⟨w₁, completed⟩, hw₁, h⟩ := Option.bind_eq_some_iff.1 h
    dsimp only at hok hwhole hw₁ h
    rcases Nat.eq_zero_or_pos pageCount with rfl | hpos
    · obtain ⟨rfl, rfl⟩ := writeVectorLog_empty hw₁
      obtain ⟨hstatus, hdone⟩ := ih hok ((whole_zero_cons _ _).1 hwhole) h
      rw [Nat.add_zero] at hdone
      have hsum : (0 :: vecs).sum = vecs.sum := by rw [List.sum_cons, Nat.zero_add]
      refine ⟨hstatus, ?_, hdone.log, fun v hv => ?_, ?_, ?_, ?_, ?_⟩
      · rw [hsum]
        exact hdone.left
      · rcases List.mem_cons.1 hv with rfl | hv
        · exact fun offset hoffset => absurd hoffset (Nat.not_lt_zero _)
        · exact hdone.data v hv
      all_goals rw [hsum]
      · exact hdone.kept
      · exact hdone.new
      · exact hdone.distinct
      · exact hdone.allocated
    · cases answers with
      | nil =>
        rw [writeVectorLog, if_pos hpos] at hw₁
        cases hw₁
      | cons a answers =>
        obtain ⟨hfirst, hrest⟩ := (whole_cons hpos _ _ _).1 hwhole
        obtain ⟨s₁, hs₁, rfl, rfl⟩ :=
          writeVectorLog_whole (hok a List.mem_cons_self) hpos hfirst hw₁
        obtain ⟨hstatus, hdone⟩ := ih (w := ⟨_, _, answers, _⟩)
          (fun b hb => hok b (List.mem_cons_of_mem _ hb)) hrest h
        exact ⟨hstatus, WholeDone.cons (w := ⟨s, pagesLeft, a :: answers, log⟩) hs₁ hdone⟩

lemma WholeDone.ncard {w' : Writing P} (h : WholeDone w w' id pageIndex vecs) :
    {x | w'.state.allocated x = true ∧ w.state.allocated x = false}.ncard = vecs.sum := by
  have himage : {x | w'.state.allocated x = true ∧ w.state.allocated x = false} =
      (fun p => (getAddress w'.state id p).getD 0) '' Set.Ico pageIndex (pageIndex + vecs.sum) := by
    ext x
    constructor
    · rintro ⟨hset, hfree⟩
      rcases (h.allocated x).1 hset with hold | ⟨p, hle, hlt, hp⟩
      · rw [hfree] at hold
        cases hold
      · refine ⟨p, ⟨hle, hlt⟩, ?_⟩
        dsimp only
        rw [hp]
        rfl
    · rintro ⟨p, ⟨hle, hlt⟩, rfl⟩
      obtain ⟨x, hx, hfree⟩ := h.new p hle hlt
      dsimp only
      rw [hx]
      exact ⟨(h.allocated x).2 (.inr ⟨p, hle, hlt, hx⟩), hfree⟩
  rw [himage, Set.InjOn.ncard_image, ncard_Ico]
  rintro p ⟨hp, hp'⟩ q ⟨hq, hq'⟩ heq
  obtain ⟨x, hx, -⟩ := h.new p hp hp'
  obtain ⟨y, hy, -⟩ := h.new q hq hq'
  dsimp only at heq
  rw [hx, hy, Option.getD_some, Option.getD_some] at heq
  exact h.distinct p q hp hp' hq hq' (by rw [hx, hy, heq])

/-- A `Write()` whose writes to the device succeed is right exactly if each vector that is not
empty is granted in one piece. -/
theorem write_right {c : AnonymousCache P} {s₀ : State P} {pageIndex : ℕ} {vecs : List ℕ}
    {answers : List WriteAnswer} {w : Writing P} {status : Status}
    (hrelease : releaseOld s id pageIndex vecs = some s₀) (hc : s₀.caches.lookup id = some c)
    (hcommitted : c.allocatedSwapSize + (vecs.sum * pageSize : ℕ) ≤ c.committedSwapSize)
    (hok : ∀ a ∈ answers, a.ok = true)
    (hgranted : writeVectorsLog id ⟨addAllocated s₀ id (vecs.sum * pageSize : ℕ), vecs.sum, answers, []⟩
      pageIndex vecs = some (w, status)) :
    (write s id pageIndex vecs answers = some (w.state, .ok) ∧ Written s₀ w id pageIndex vecs) ↔
      ∀ a ∈ answers.take (vecs.countP (0 < ·)), a.halvings = 0 := by
  constructor
  · rintro ⟨-, hwritten⟩
    exact whole_of_dataMapped (w := ⟨_, _, answers, []⟩) hok
      (fun d hd => absurd hd List.not_mem_nil) hgranted hwritten.data
  · intro hwhole
    obtain ⟨rfl, hdone⟩ := writeVectorsLog_whole (w := ⟨_, _, answers, []⟩) hok hwhole hgranted
    have hleft : w.pagesLeft = 0 := by
      rw [hdone.left]
      exact sub_self _
    refine ⟨?_, hleft, hdone.data, hdone.distinct, ?_⟩
    · unfold write
      rw [hrelease, Option.bind_eq_bind, Option.bind_some, hc, Option.bind_eq_bind,
        Option.bind_some]
      dsimp only
      rw [if_neg (by rw [Nat.cast_mul] at hcommitted; omega)]
      have hloop := writeVectors_eq id vecs
        ⟨addAllocated s₀ id (vecs.sum * pageSize : ℕ), vecs.sum, answers, []⟩ pageIndex
      rw [hgranted, Option.bind_some, if_neg fun h => h.2 hleft] at hloop
      dsimp only at hloop
      rw [← hloop]
      push_cast
      rfl
    · have hncard := hdone.ncard
      dsimp only at hncard
      rwa [allocated_addAllocated] at hncard

/-- A cache of 64 pages, all of which are committed in the swap space. -/
def committedCache : AnonymousCache ℕ where
  virtualBase := 0
  virtualEnd := 64 * 4096
  committedSize := 64 * 4096
  committedSwapSize := 64 * 4096
  allocatedSwapSize := 0
  canOvercommit := false
  hasPrecommitted := false
  precommittedPages := 0
  guardedSize := 0
  pages := ∅

/-- The cache has no slots yet, and there is a swap file of 64 pages. -/
def noSlots : State ℕ :=
  { (initial ℕ).setCache 0 committedCache with files := [⟨0, 0, 64⟩] }

theorem write_right_two : ∃ w : Writing ℕ,
    writeVectorsLog 0 ⟨addAllocated noSlots 0 (2 * pageSize : ℕ), 2, [⟨0, 5, true⟩], []⟩ 3 [2] =
        some (w, .ok) ∧
      ((write noSlots 0 3 [2] [⟨0, 5, true⟩] = some (w.state, .ok) ∧
          Written noSlots w 0 3 [2]) ↔
        ∀ a ∈ [(⟨0, 5, true⟩ : WriteAnswer)].take ([2].countP (0 < ·)), a.halvings = 0) :=
  ⟨_, rfl, write_right (c := committedCache) rfl rfl (by decide) (by decide)
    (rfl : writeVectorsLog 0 ⟨addAllocated noSlots 0 (2 * pageSize : ℕ), 2, [⟨0, 5, true⟩], []⟩ 3
      [2] = some (_, .ok))⟩

/-- A vector of 33 pages is written in three parts of 16 pages, since a bitmap hands out no more
than 32 slots at once. -/
theorem not_write_right : ¬∀ (s s₀ : State ℕ) (id pageIndex : ℕ) (vecs : List ℕ)
    (answers : List WriteAnswer) (c : AnonymousCache ℕ) (w : Writing ℕ) (status : Status),
    releaseOld s id pageIndex vecs = some s₀ → s₀.caches.lookup id = some c →
    c.allocatedSwapSize + (vecs.sum * pageSize : ℕ) ≤ c.committedSwapSize →
    (∀ a ∈ answers, a.ok = true) →
    writeVectorsLog id ⟨addAllocated s₀ id (vecs.sum * pageSize : ℕ), vecs.sum, answers, []⟩
      pageIndex vecs = some (w, status) →
    write s id pageIndex vecs answers = some (w.state, .ok) ∧ Written s₀ w id pageIndex vecs := by
  intro h
  have hwritten := (h noSlots noSlots 0 0 [33] [⟨1, 0, true⟩, ⟨0, 16, true⟩, ⟨0, 32, true⟩]
    committedCache _ .ok rfl rfl (by decide) (by decide) rfl).2
  have hleft := hwritten.noneLeft
  revert hleft
  decide

end Haiku.Swap
