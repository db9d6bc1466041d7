import Mathlib.Data.Nat.Bitwise
import Mathlib.Tactic.Ring
import Haiku.Log.System

/-!
# What the run arrays of a log entry contain

Whatever blocks a transaction has, the arrays made for it hold each of them once, and every array
passes the check that is made when the log is replayed.
-/

namespace Haiku.Log

variable {D : Type} {v : Volume}

/-! ## Blocks and runs -/

lemma toBlock_toBlockRun (v : Volume) (b : ℕ) : v.toBlock (v.toBlockRun b) = b := by
  have hlt : b % 2 ^ v.allocationGroupShift < 2 ^ v.allocationGroupShift :=
    Nat.mod_lt _ (Nat.two_pow_pos _)
  show (b >>> v.allocationGroupShift) <<< v.allocationGroupShift
    ||| b % 2 ^ v.allocationGroupShift = b
  rw [← Nat.shiftLeft_add_eq_or_of_lt hlt, Nat.shiftRight_eq_div_pow, Nat.shiftLeft_eq,
    Nat.mul_comm]
  exact Nat.div_add_mod _ _

lemma toBlockRun_injective (v : Volume) : Function.Injective v.toBlockRun := by
  intro b c h
  rw [← toBlock_toBlockRun v b, h, toBlock_toBlockRun]

@[simp]
lemma blocksOf_toBlockRun (v : Volume) (b : ℕ) : v.blocksOf (v.toBlockRun b) = [b] := by
  have hb := toBlock_toBlockRun v b
  show (List.range 1).map (v.toBlock (v.toBlockRun b) + ·) = [b]
  rw [hb]
  rfl

variable {b : ℕ}

lemma validateBlockRun_toBlockRun (hb : b < v.numBlocks) :
    v.validateBlockRun (v.toBlockRun b) = true := by
  have hlt : b % 2 ^ v.allocationGroupShift < 2 ^ v.allocationGroupShift :=
    Nat.mod_lt _ (Nat.two_pow_pos _)
  have hgroup : b >>> v.allocationGroupShift ≤ v.allocationGroups := by
    rw [Nat.shiftRight_eq_div_pow]
    exact Nat.div_le_div_right (by have := Nat.two_pow_pos v.allocationGroupShift; omega)
  have hone : ¬(1 : ℕ) = 0 := by omega
  simp only [Volume.validateBlockRun, Volume.toBlockRun, gt_iff_lt, Bool.not_eq_true',
    Bool.or_eq_false_iff, decide_eq_false_iff_not, not_lt, beq_eq_false_iff_ne]
  exact ⟨⟨⟨hgroup, by omega⟩, hone⟩, by omega⟩

/-! ## One array -/

lemma insert_maxRuns (a : RunArray) (r : BlockRun) : (a.insert r).maxRuns = a.maxRuns := by
  unfold RunArray.insert
  split <;> rfl

lemma insert_runs_perm (a : RunArray) (r : BlockRun) : (a.insert r).runs.Perm (r :: a.runs) := by
  unfold RunArray.insert
  split
  next => exact List.perm_append_singleton r a.runs
  next i _ =>
    have h : (a.runs.take i ++ r :: a.runs.drop i).Perm (r :: (a.runs.take i ++ a.runs.drop i)) :=
      List.perm_middle
    rwa [List.take_append_drop] at h

lemma maxRuns_eq (v : Volume) : maxRuns v.blockSize = 127 := by
  have hge := v.blockSize_ge
  show (if (v.blockSize - 8) / 8 < 128 then (v.blockSize - 8) / 8 else 127) = 127
  split <;> omega

/-- What every array in a log entry has: a place for one run less than its size says, at least
one run, and only runs of single blocks. -/
structure ArrayOk (v : Volume) (a : RunArray) : Prop where
  maxRuns_eq : a.maxRuns = maxRuns v.blockSize
  ne_nil : a.runs ≠ []
  length_le : a.runs.length ≤ a.maxRuns - 1
  single : ∀ r ∈ a.runs, ∃ b, r = v.toBlockRun b

variable {a : RunArray} {arrays arrays' : List RunArray}

lemma blocks_eq_map (h : ∀ r ∈ a.runs, ∃ b, r = v.toBlockRun b) :
    a.blocks v = a.runs.map v.toBlock := by
  have hone : ∀ runs : List BlockRun, (∀ r ∈ runs, ∃ b, r = v.toBlockRun b) →
      runs.flatMap v.blocksOf = runs.map v.toBlock := by
    intro runs
    induction runs with
    | nil => intro _; rfl
    | cons r runs ih =>
      intro h
      obtain ⟨b, rfl⟩ := h r (List.mem_cons_self ..)
      rw [List.flatMap_cons, List.map_cons, blocksOf_toBlockRun, toBlock_toBlockRun,
        ih fun r hr => h r (List.mem_cons_of_mem _ hr)]
      rfl
  exact hone a.runs h

lemma ArrayOk.blocks_length (h : ArrayOk v a) : (a.blocks v).length = a.runs.length := by
  rw [blocks_eq_map h.single, List.length_map]

lemma ArrayOk.of_insert (hmax : a.maxRuns = maxRuns v.blockSize)
    (hlt : a.runs.length < a.maxRuns - 1) (hsingle : ∀ r ∈ a.runs, ∃ b, r = v.toBlockRun b) :
    ArrayOk v (a.insert (v.toBlockRun b)) := by
  have hperm := insert_runs_perm a (v.toBlockRun b)
  constructor
  case maxRuns_eq => rw [insert_maxRuns, hmax]
  case ne_nil =>
    intro hnil
    rw [hnil] at hperm
    exact absurd hperm.length_eq (by simp)
  case length_le =>
    rw [hperm.length_eq, insert_maxRuns, List.length_cons]
    omega
  case single =>
    intro r hr
    rcases List.mem_cons.1 (hperm.mem_iff.1 hr) with rfl | hr
    · exact ⟨b, rfl⟩
    · exact hsingle r hr

/-! ## All arrays of an entry -/

def allRuns (arrays : List RunArray) : List BlockRun := arrays.flatMap RunArray.runs

lemma containsRun_iff (h : ∀ a ∈ arrays, ArrayOk v a) :
    containsRun arrays (v.toBlockRun b) = true ↔ v.toBlockRun b ∈ allRuns arrays := by
  simp only [containsRun, List.any_eq_true, Bool.and_eq_true, beq_iff_eq, decide_eq_true_eq,
    allRuns, List.mem_flatMap]
  constructor
  · rintro ⟨a, ha, r, hr, ⟨hgroup, hle⟩, hge⟩
    obtain ⟨c, rfl⟩ := (h a ha).single r hr
    -- both runs have one block, so the starts are the same
    have hstart : (v.toBlockRun b).start = (v.toBlockRun c).start := by
      simp only [Volume.toBlockRun] at hle hge ⊢
      omega
    refine ⟨a, ha, ?_⟩
    have heq : v.toBlockRun b = v.toBlockRun c := by
      unfold Volume.toBlockRun at hgroup hstart ⊢
      simp only [BlockRun.mk.injEq] at hgroup hstart ⊢
      exact ⟨hgroup, hstart, trivial⟩
    rwa [heq]
  · rintro ⟨a, ha, hr⟩
    exact ⟨a, ha, _, hr, ⟨rfl, le_rfl⟩, le_rfl⟩

lemma addRun_eq_some {r : BlockRun} (h : addRun arrays r = some arrays') :
    ∃ init last, arrays = init ++ [last] ∧ last.runs.length ≠ last.maxRuns - 1 ∧
      arrays' = init ++ [last.insert r] := by
  unfold addRun at h
  rcases List.eq_nil_or_concat arrays with rfl | ⟨init, last, rfl⟩
  · simp at h
  · rw [List.concat_eq_append] at h ⊢
    rw [List.getLast?_concat] at h
    simp only [Option.ite_none_left_eq_some, List.dropLast_concat, Option.some.injEq] at h
    exact ⟨init, last, rfl, h.1, h.2.symm⟩

lemma addRun_allRuns {r : BlockRun} (h : addRun arrays r = some arrays') :
    (allRuns arrays').Perm (r :: allRuns arrays) := by
  obtain ⟨init, last, rfl, -, rfl⟩ := addRun_eq_some h
  simp only [allRuns, List.flatMap_append, List.flatMap_singleton]
  have hlast : (init.flatMap RunArray.runs ++ (last.insert r).runs).Perm
      (init.flatMap RunArray.runs ++ r :: last.runs) := (insert_runs_perm last r).append_left _
  exact hlast.trans List.perm_middle

/-- The arrays hold exactly the given blocks, each once. -/
structure ArraysFor (v : Volume) (arrays : List RunArray) (blocks : List ℕ) : Prop where
  ok : ∀ a ∈ arrays, ArrayOk v a
  nodup : (allRuns arrays).Nodup
  mem_iff : ∀ b, v.toBlockRun b ∈ allRuns arrays ↔ b ∈ blocks

lemma ArraysFor.nil (v : Volume) : ArraysFor v [] [] where
  ok := by simp
  nodup := List.nodup_nil
  mem_iff := by simp [allRuns]

lemma ArraysFor.snoc {blocks : List ℕ} (h : ArraysFor v arrays blocks)
    (hok : ∀ a ∈ arrays', ArrayOk v a) (hnew : v.toBlockRun b ∉ allRuns arrays)
    (hperm : (allRuns arrays').Perm (v.toBlockRun b :: allRuns arrays)) :
    ArraysFor v arrays' (blocks ++ [b]) where
  ok := hok
  nodup := hperm.nodup_iff.2 (List.nodup_cons.2 ⟨hnew, h.nodup⟩)
  mem_iff c := by
    rw [hperm.mem_iff, List.mem_cons, List.mem_append, List.mem_singleton, h.mem_iff c,
      (toBlockRun_injective v).eq_iff]
    exact or_comm

lemma addRun_ok (h : addRun arrays (v.toBlockRun b) = some arrays')
    (hok : ∀ a ∈ arrays, ArrayOk v a) : ∀ a ∈ arrays', ArrayOk v a := by
  obtain ⟨init, last, rfl, hlen, rfl⟩ := addRun_eq_some h
  have hlast := hok last (by simp)
  intro a ha
  rcases List.mem_append.1 ha with ha | ha
  · exact hok a (List.mem_append_left _ ha)
  · obtain rfl := List.mem_singleton.1 ha
    have hle := hlast.length_le
    exact .of_insert hlast.maxRuns_eq (by omega) hlast.single

variable {blocks : List ℕ}

lemma insertBlock_spec (h : ArraysFor v arrays blocks) (b : ℕ) :
    ∃ arrays', insertBlock v arrays b = some arrays' ∧ ArraysFor v arrays' (blocks ++ [b]) := by
  unfold insertBlock
  by_cases hmem : v.toBlockRun b ∈ allRuns arrays
  · rw [if_pos ((containsRun_iff h.ok).2 hmem)]
    refine ⟨arrays, rfl, h.ok, h.nodup, fun c => ?_⟩
    have hb := (h.mem_iff b).1 hmem
    rw [h.mem_iff, List.mem_append, List.mem_singleton]
    constructor
    · exact Or.inl
    · rintro (hc | rfl)
      · exact hc
      · exact hb
  · rw [if_neg fun hc => hmem ((containsRun_iff h.ok).1 hc)]
    cases hadd : addRun arrays (v.toBlockRun b) with
    | some arrays' => exact ⟨arrays', rfl, h.snoc (addRun_ok hadd h.ok) hmem (addRun_allRuns hadd)⟩
    | none =>
      -- the new array is empty, and has a place for the run
      have hnew : addRun (addArray v arrays) (v.toBlockRun b) = some (arrays ++
          [(⟨maxRuns v.blockSize, []⟩ : RunArray).insert (v.toBlockRun b)]) := by
        simp [addRun, addArray, maxRuns_eq]
      refine ⟨_, hnew, h.snoc ?_ hmem ?_⟩
      · intro a ha
        rcases List.mem_append.1 ha with ha | ha
        · exact h.ok a ha
        · obtain rfl := List.mem_singleton.1 ha
          exact .of_insert rfl (by simp [maxRuns_eq]) (by simp)
      · have hperm := addRun_allRuns hnew
        have hempty : allRuns (addArray v arrays) = allRuns arrays := by
          simp [allRuns, addArray]
        rwa [hempty] at hperm

lemma runArraysOf_spec (v : Volume) (blocks : List ℕ) :
    ∃ arrays, runArraysOf v blocks = some arrays ∧ ArraysFor v arrays blocks := by
  have hfold : ∀ bs seen arrays, ArraysFor v arrays seen →
      ∃ arrays', bs.foldlM (insertBlock v) arrays = some arrays' ∧
        ArraysFor v arrays' (seen ++ bs) := by
    intro bs
    induction bs with
    | nil => intro seen arrays h; exact ⟨arrays, rfl, by simpa using h⟩
    | cons b bs ih =>
      intro seen arrays h
      obtain ⟨arrays₁, hins, h₁⟩ := insertBlock_spec h b
      obtain ⟨arrays', hrest, h'⟩ := ih _ _ h₁
      refine ⟨arrays', ?_, by simpa using h'⟩
      rw [List.foldlM_cons, hins]
      exact hrest
  exact hfold blocks [] [] (.nil v)

/-! ## The blocks of an entry -/

section

variable (h : ArraysFor v arrays blocks)
include h

lemma ArraysFor.blocks_mem (ha : a ∈ arrays) (hb : b ∈ a.blocks v) : b ∈ blocks := by
  rw [blocks_eq_map (h.ok a ha).single] at hb
  obtain ⟨r, hr, rfl⟩ := List.mem_map.1 hb
  obtain ⟨c, rfl⟩ := (h.ok a ha).single r hr
  rw [toBlock_toBlockRun]
  exact (h.mem_iff c).1 (List.mem_flatMap.2 ⟨a, ha, hr⟩)

lemma ArraysFor.mem_logged (get : ℕ → D) (x : ℕ × D) :
    x ∈ (Commit.mk arrays get).logged v ↔ x.1 ∈ blocks ∧ x.2 = get x.1 := by
  simp only [Commit.logged, List.mem_flatMap, List.mem_map]
  constructor
  · rintro ⟨a, ha, b, hb, rfl⟩
    exact ⟨h.blocks_mem ha hb, rfl⟩
  · rintro ⟨hb, hx⟩
    obtain ⟨a, ha, hr⟩ := List.mem_flatMap.1 ((h.mem_iff x.1).2 hb)
    refine ⟨a, ha, x.1, ?_, by rw [← hx]⟩
    rw [blocks_eq_map (h.ok a ha).single]
    exact List.mem_map.2 ⟨_, hr, toBlock_toBlockRun v x.1⟩

lemma ArraysFor.layout_length (get : ℕ → D) :
    ((Commit.mk arrays get).layout v).length = logEntryLength arrays := by
  have hsum : ∀ arrays : List RunArray, (∀ a ∈ arrays, ArrayOk v a) →
      (arrays.flatMap (arrayLayout v get)).length = logEntryLength arrays := by
    intro arrays
    induction arrays with
    | nil => intro _; rfl
    | cons a arrays ih =>
      intro hok
      have hlen := (hok a (List.mem_cons_self ..)).blocks_length
      have hrest := ih fun a ha => hok a (List.mem_cons_of_mem _ ha)
      rw [List.flatMap_cons, List.length_append, hrest]
      simp only [arrayLayout, List.length_cons, List.length_map, hlen, logEntryLength,
        countBlocks, List.map_cons, List.sum_cons]
      omega
  exact hsum arrays h.ok

end

lemma ArrayOk.check (h : ArrayOk v a) (hvalid : ∀ b ∈ a.blocks v, b < v.numBlocks) :
    checkRunArray v a = true := by
  have hpos := List.length_pos_iff.2 h.ne_nil
  have hle := h.length_le
  have hall : ∀ r ∈ a.runs, v.validateBlockRun r = true := by
    intro r hr
    obtain ⟨b, rfl⟩ := h.single r hr
    refine validateBlockRun_toBlockRun (hvalid b ?_)
    rw [blocks_eq_map h.single]
    exact List.mem_map.2 ⟨_, hr, toBlock_toBlockRun v b⟩
  rw [h.maxRuns_eq] at hle
  simp only [checkRunArray, h.maxRuns_eq, decide_true, Bool.true_and, Bool.and_eq_true,
    decide_eq_true_eq, List.all_eq_true]
  exact ⟨⟨hle, hpos⟩, hall⟩

end Haiku.Log
