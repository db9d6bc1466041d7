import Haiku.Log.ArrayTheorems

/-!
# Where the blocks of an entry are written

The loop that writes an entry splits it at the end of the log area. Altogether it writes the
blocks of the entry one after the other into the ring of the log, starting where the last entry
ended.
-/

namespace Haiku.Log

open Lib

variable {D : Type} {v : Volume} {w : Writer D} {get : ℕ → D} {p : ℕ}
  {ys : List (LogBlock D)} {ws : List (ℕ × List (LogBlock D))}

/-! ## One array -/

/-- The writer has collected the blocks `ys` of an array that begins at position `p`: either all of
them are still to be written, or those up to the end of the log were written. -/
inductive Collected (v : Volume) (p : ℕ) (ws : List (ℕ × List (LogBlock D)))
    (ys : List (LogBlock D)) (w : Writer D) : Prop
  | straight (start : w.logStart = p) (wrap : w.wrap = v.logSize - p)
      (count : w.count = ys.length) (vecs : w.vecs = ys) (writes : w.writes = ws)
      (fits : p + ys.length ≤ v.logSize)
  | wrapped (first : List (LogBlock D)) (start : w.logStart = 0) (wrap : w.wrap = v.logSize)
      (count : w.count = w.vecs.length) (vecs : ys = first ++ w.vecs) (ne_nil : w.vecs ≠ [])
      (fills : p + first.length = v.logSize) (writes : w.writes = ws ++ [(p, first)])

lemma add_of_wrap (h : w.count ≥ w.wrap) (d : D) :
    w.add v d = { logStart := 0, logPosition := w.logStart + w.count, wrap := v.logSize, count := 1,
                  vecs := [.data d], writes := w.writes ++ [(w.logStart, w.vecs)] } := by
  simp [Writer.add, h]

lemma add_of_not_wrap (h : ¬w.count ≥ w.wrap) (d : D) :
    w.add v d = { w with vecs := w.vecs ++ [.data d], count := w.count + 1 } := by
  simp only [Writer.add, h, if_false]

lemma finish_of_pos (h : w.count > 0) :
    w.finish v = { w with logPosition := w.logStart + w.count
                          writes := w.writes ++ [(w.logStart, w.vecs)]
                          logStart := (w.logStart + w.count) % v.logSize } := by
  simp only [Writer.finish, h, if_true]

lemma collected_begin (hp : w.logStart < v.logSize) (a : RunArray) :
    Collected v w.logStart w.writes [.array a] (w.begin v a) :=
  .straight rfl rfl rfl rfl rfl (by simp; omega)

lemma Collected.add (h : Collected v p ws ys w) (hp : p < v.logSize)
    (hlen : ys.length < v.logSize) (d : D) :
    Collected v p ws (ys ++ [.data d]) (w.add v d) := by
  cases h with
  | straight start wrap count vecs writes fits =>
    by_cases hwrap : w.count ≥ w.wrap
    · -- the collected blocks reach the end of the log
      rw [add_of_wrap hwrap]
      exact .wrapped ys rfl rfl rfl rfl (by simp) (by omega) (by rw [start, vecs, writes])
    · rw [add_of_not_wrap hwrap]
      exact .straight start wrap (by simp [count]) (by rw [vecs]) writes (by simp; omega)
  | wrapped first start wrap count vecs ne_nil fills writes =>
    have hwrap : ¬w.count ≥ w.wrap := by
      rw [vecs, List.length_append] at hlen
      omega
    rw [add_of_not_wrap hwrap]
    exact .wrapped first start wrap (by simp [count]) (by simp [vecs]) (by simp) fills writes

lemma Collected.foldl (hp : p < v.logSize) : ∀ {ds : List D} {ys : List (LogBlock D)}
    {w : Writer D}, Collected v p ws ys w → ys.length + ds.length ≤ v.logSize →
      Collected v p ws (ys ++ ds.map .data) (ds.foldl (Writer.add v) w) := by
  intro ds
  induction ds with
  | nil =>
    intro ys w h _
    simpa using h
  | cons d ds ih =>
    intro ys w h hlen
    rw [List.length_cons] at hlen
    have hadd := h.add hp (by omega) d
    have hrest := ih hadd (by rw [List.length_append, List.length_singleton]; omega)
    simpa using hrest

lemma Collected.finish (h : Collected v p ws ys w) (hp : p < v.logSize) (hne : ys ≠ [])
    (hlen : ys.length ≤ v.logSize) : ∃ ws', (w.finish v).writes = ws ++ ws' ∧
      WritesRing ws' v.logSize p ys ∧ 0 < (w.finish v).logPosition ∧
      (w.finish v).logPosition ≤ v.logSize ∧
      (w.finish v).logPosition ≡ p + ys.length [MOD v.logSize] := by
  have hpos := List.length_pos_iff.2 hne
  cases h with
  | straight start wrap count vecs writes fits =>
    have hcount : w.count > 0 := by omega
    rw [finish_of_pos hcount]
    refine ⟨[(p, ys)], ?_, .single fits, ?_, ?_, ?_⟩
    · rw [start, vecs, writes]
    · show 0 < w.logStart + w.count
      omega
    · show w.logStart + w.count ≤ v.logSize
      omega
    · show w.logStart + w.count ≡ p + ys.length [MOD v.logSize]
      rw [start, count]
  | wrapped first start wrap count vecs ne_nil fills writes =>
    have hrest := List.length_pos_iff.2 ne_nil
    have hcount : w.count > 0 := by omega
    rw [vecs, List.length_append] at hlen
    have hend : p + first.length ≡ 0 [MOD v.logSize] := by
      rw [fills]
      exact (Nat.modEq_zero_iff_dvd.2 dvd_rfl)
    have hsecond : WritesRing [(0, w.vecs)] v.logSize (p + first.length) w.vecs :=
      (WritesRing.single (by omega)).modEq hend.symm
    rw [finish_of_pos hcount]
    refine ⟨[(p, first)] ++ [(0, w.vecs)], ?_, ?_, ?_, ?_, ?_⟩
    · rw [start, writes, List.append_assoc]
    · rw [vecs]
      exact (WritesRing.single (by omega)).append hsecond hlen
    · show 0 < w.logStart + w.count
      omega
    · show w.logStart + w.count ≤ v.logSize
      omega
    · show w.logStart + w.count ≡ p + ys.length [MOD v.logSize]
      have hcong := hend.symm.add_right w.vecs.length
      rw [Nat.add_assoc, ← List.length_append, ← vecs] at hcong
      rwa [start, count]

lemma writeArray_spec (hp : w.logStart < v.logSize) {a : RunArray}
    (hlen : (arrayLayout v get a).length ≤ v.logSize) :
    ∃ ws, (w.writeArray v get a).writes = w.writes ++ ws ∧
      WritesRing ws v.logSize w.logStart (arrayLayout v get a) ∧
      0 < (w.writeArray v get a).logPosition ∧
      (w.writeArray v get a).logPosition ≤ v.logSize ∧
      (w.writeArray v get a).logPosition ≡
        w.logStart + (arrayLayout v get a).length [MOD v.logSize] ∧
      (w.writeArray v get a).logStart = (w.writeArray v get a).logPosition % v.logSize := by
  have hlen' : ([LogBlock.array a] : List (LogBlock D)).length +
      ((a.blocks v).map get).length ≤ v.logSize := by
    simp only [arrayLayout, List.length_cons, List.length_map, List.length_nil] at hlen ⊢
    omega
  have hcol := (collected_begin hp a).foldl hp hlen'
  have hlayout : [LogBlock.array a] ++ ((a.blocks v).map get).map .data = arrayLayout v get a := by
    simp [arrayLayout]
  rw [hlayout] at hcol
  obtain ⟨ws, hwrites, hring, hpos, hle, hmod⟩ := hcol.finish hp (by simp [arrayLayout]) hlen
  exact ⟨ws, hwrites, hring, hpos, hle, hmod, rfl⟩

/-! ## All arrays -/

lemma foldl_writeArray_spec : ∀ {arrays : List RunArray} {w : Writer D},
    w.logStart < v.logSize → (arrays.flatMap (arrayLayout v get)).length ≤ v.logSize →
    ∃ ws, (arrays.foldl (Writer.writeArray v get) w).writes = w.writes ++ ws ∧
      WritesRing ws v.logSize w.logStart (arrays.flatMap (arrayLayout v get)) ∧
      (arrays ≠ [] → 0 < (arrays.foldl (Writer.writeArray v get) w).logPosition ∧
        (arrays.foldl (Writer.writeArray v get) w).logPosition ≤ v.logSize ∧
        (arrays.foldl (Writer.writeArray v get) w).logPosition ≡
          w.logStart + (arrays.flatMap (arrayLayout v get)).length [MOD v.logSize]) := by
  intro arrays
  induction arrays with
  | nil =>
    intro w _ _
    exact ⟨[], by simp, .nil, fun h => absurd rfl h⟩
  | cons a arrays ih =>
    intro w hw hlen
    rw [List.flatMap_cons, List.length_append] at hlen
    obtain ⟨ws₁, hws₁, hring₁, hpos₁, hle₁, hmod₁, hstart₁⟩ := writeArray_spec hw
      (show (arrayLayout v get a).length ≤ v.logSize by omega)
    have hlt : (w.writeArray v get a).logStart < v.logSize := by
      rw [hstart₁]
      exact Nat.mod_lt _ v.logSize_pos
    have hmod : (w.writeArray v get a).logStart ≡
        w.logStart + (arrayLayout v get a).length [MOD v.logSize] := by
      rw [hstart₁]
      exact (Nat.mod_modEq _ _).trans hmod₁
    obtain ⟨ws₂, hws₂, hring₂, hlast⟩ := ih hlt (by omega)
    refine ⟨ws₁ ++ ws₂, ?_, ?_, fun _ => ?_⟩
    · rw [List.foldl_cons, hws₂, hws₁, List.append_assoc]
    · rw [List.flatMap_cons]
      exact hring₁.append (hring₂.modEq hmod) (by omega)
    · rw [List.foldl_cons, List.flatMap_cons, List.length_append, ← Nat.add_assoc]
      by_cases hnil : arrays = []
      · subst hnil
        exact ⟨hpos₁, hle₁, hmod₁⟩
      · obtain ⟨hpos₂, hle₂, hmod₂⟩ := hlast hnil
        exact ⟨hpos₂, hle₂, hmod₂.trans (hmod.add_right _)⟩

lemma writeArrays_spec {arrays : List RunArray} (hne : arrays ≠ [])
    (hlen : ((Commit.mk arrays get).layout v).length ≤ v.logSize) (logEnd : ℕ) :
    WritesRing (writeArrays v get logEnd arrays).writes v.logSize logEnd
      ((Commit.mk arrays get).layout v) ∧
    0 < (writeArrays v get logEnd arrays).logPosition ∧
    (writeArrays v get logEnd arrays).logPosition ≤ v.logSize ∧
    (writeArrays v get logEnd arrays).logPosition ≡
      logEnd + ((Commit.mk arrays get).layout v).length [MOD v.logSize] := by
  have hlt : logEnd % v.logSize < v.logSize := Nat.mod_lt _ v.logSize_pos
  let w₀ : Writer D := ⟨logEnd % v.logSize, logEnd % v.logSize, 0, 0, [], []⟩
  have hw₀ : w₀.logStart < v.logSize := hlt
  obtain ⟨ws, hws, hring, hlast⟩ := foldl_writeArray_spec hw₀ hlen
  obtain ⟨hpos, hle, hmod⟩ := hlast hne
  rw [List.nil_append] at hws
  refine ⟨?_, hpos, hle, hmod.trans ((Nat.mod_modEq _ _).add_right _)⟩
  rw [writeArrays, hws]
  exact hring.modEq (Nat.mod_modEq _ _)

end Haiku.Log
