import Haiku.Cache.SystemTheorems

/-!
# Discarding blocks

`block_cache_discard()` writes the changes of closed transactions back. Its second loop is to discard
the blocks, but the first one has counted `numBlocks` down to 0.
-/

namespace Haiku.Cache

open Lib

variable {D : Type} [Zero D]

/-- `block_cache_discard()` with all that its writer does -/
def BlockCache.discardCalls (s : BlockCache D) (n : BlockNumber) (numBlocks : ℕ) : List (Call D) :=
  let blocks := s.pendingBlocks (List.range' n numBlocks)
  .discard n numBlocks ::
    if blocks = [] then []
    else List.replicate blocks.length (.writeBlock s.writers.length) ++
      [.writeDone s.writers.length]

/-- What is expected of the blocks of the range, and of the others -/
structure Discarded (s s' : BlockCache D) (n : BlockNumber) (numBlocks : ℕ) : Prop where
  unused : ∀ m ∈ List.range' n numBlocks, ∀ b, s.hash m = some b → b.unused = true →
    s'.hash m = none
  discard : ∀ m ∈ List.range' n numBlocks, ∀ b, s'.hash m = some b → b.discard = true
  written : ∀ m ∈ List.range' n numBlocks, (s'.role m).previous = none
  outside : ∀ m ∉ List.range' n numBlocks, s'.hash m = s.hash m

/-! ## The writer -/

omit [Zero D] in
lemma blockDone_hash (s : BlockCache D) (n m : BlockNumber) :
    (s.blockDone n).hash m = if m = n then (s.hash m).map CachedBlock.done else s.hash m := by
  cases hn : s.hash n with
  | none =>
    have hsame : s.blockDone n = s := by unfold BlockCache.blockDone; rw [hn]
    rw [hsame]
    split_ifs with h
    · rw [h, hn]; rfl
    · rfl
  | some b =>
    rw [blockDone_eq hn]
    show Function.update s.hash n (some b.done) m = _
    rw [Function.update_apply]
    split_ifs with h
    · rw [h, hn]; rfl
    · rfl

omit [Zero D] in
lemma foldl_blockDone_hash {l : List BlockNumber} (hl : l.Nodup) (s : BlockCache D)
    (m : BlockNumber) : (l.foldl BlockCache.blockDone s).hash m =
      if m ∈ l then (s.hash m).map CachedBlock.done else s.hash m := by
  induction l generalizing s with
  | nil => rfl
  | cons n l ih =>
    have hn : n ∉ l := (List.nodup_cons.1 hl).1
    show (l.foldl BlockCache.blockDone (s.blockDone n)).hash m = _
    rw [ih (List.nodup_cons.1 hl).2, blockDone_hash]
    by_cases hm : m = n
    · rw [if_neg (by rw [hm]; exact hn), if_pos hm, if_pos (by rw [hm]; exact List.mem_cons_self)]
    · rw [if_neg hm]
      simp [hm]

lemma replay_writeBlock {pending done : List BlockNumber} {next : AfterWrite} {s : BlockCache D}
    {i : ℕ} (hw : s.writers[i]? = some ⟨pending, done, next⟩)
    (hcached : ∀ n ∈ pending, s.hash n ≠ none) :
    ∃ h s', replay step s (List.replicate pending.length (.writeBlock i)) = some (h, s') ∧
      s'.hash = s.hash ∧ s'.writers[i]? = some ⟨[], done ++ pending, next⟩ := by
  induction pending generalizing s done with
  | nil => exact ⟨[], s, rfl, rfl, by rw [hw, List.append_nil]⟩
  | cons n pending ih =>
    have hi : i < s.writers.length := (List.getElem?_eq_some_iff.1 hw).1
    obtain ⟨b, hb⟩ := Option.ne_none_iff_exists'.1 (hcached n List.mem_cons_self)
    let s₁ := { s.writeData n b with writers := s.writers.set i ⟨pending, done ++ [n], next⟩ }
    have hstep : step s (.writeBlock i) = some s₁ := by
      show s.writeNext i = _
      unfold BlockCache.writeNext
      rw [hw]
      dsimp only
      rw [hb]
    have hw₁ : s₁.writers[i]? = some ⟨pending, done ++ [n], next⟩ := by
      show (s.writers.set i _)[i]? = _
      rw [List.getElem?_set_self hi]
    obtain ⟨h, s', hr, hh, hw'⟩ := ih hw₁ fun m hm => hcached m (List.mem_cons_of_mem n hm)
    refine ⟨h ++ [(s, .writeBlock i)], s', ?_, hh, by rw [hw', List.append_assoc]; rfl⟩
    show (step s (.writeBlock i)).bind _ = _
    rw [hstep, Option.bind_some, hr]
    rfl

/-! ## The call -/

lemma replay_discard (s : BlockCache D) (hidle : s.busyWritingCount = 0) (n : BlockNumber)
    (numBlocks : ℕ) :
    ∃ h s', replay step s (s.discardCalls n numBlocks) = some (h, s') ∧
      ∀ m, s'.hash m =
        if m ∈ s.pendingBlocks (List.range' n numBlocks) then
          (s.hash m).map fun b => ({ b with busyWriting := true } : CachedBlock D).done
        else s.hash m := by
  unfold BlockCache.discardCalls
  set ns := s.pendingBlocks (List.range' n numBlocks)
  have hcall : step s (.discard n numBlocks) = s.write ns (.discard (n + numBlocks) 0) := by
    show s.blockCacheDiscard n numBlocks = _
    unfold BlockCache.blockCacheDiscard
    rw [if_neg (not_not.2 hidle)]
  by_cases hempty : ns = []
  · have hstep : step s (.discard n numBlocks) = some s := by
      rw [hcall]
      unfold BlockCache.write
      rw [if_pos hempty]
      rfl
    refine ⟨[(s, .discard n numBlocks)], s, ?_, fun m => ?_⟩
    · dsimp only
      rw [if_pos hempty]
      show (step s (.discard n numBlocks)).bind _ = _
      rw [hstep]
      rfl
    · rw [hempty]
      rfl
  · have hnodup : ns.Nodup := (List.nodup_range').filter _
    let w : BlockWriter := ⟨ns.mergeSort, [], .discard (n + numBlocks) 0⟩
    let s₁ := { s.addAll ns with writers := (s.addAll ns).writers ++ [w] }
    have hstep : step s (.discard n numBlocks) = some s₁ := by
      rw [hcall]
      unfold BlockCache.write
      rw [if_neg hempty]
    have hwriters : (s.addAll ns).writers = s.writers := (addAll_rest ns s).2.2.2.2.1
    have hw : s₁.writers[s.writers.length]? = some w := by
      show ((s.addAll ns).writers ++ [w])[s.writers.length]? = _
      rw [hwriters, List.getElem?_append_right (Nat.le_refl _), Nat.sub_self]
      rfl
    have hcached : ∀ m ∈ ns.mergeSort, s₁.hash m ≠ none := by
      intro m hm
      obtain ⟨-, b, hb, -⟩ := mem_select.1 (List.mem_mergeSort.1 hm)
      show (s.addAll ns).hash m ≠ none
      rw [addAll_hash, hb]
      split_ifs <;> simp
    obtain ⟨h₂, s₂, hr₂, hh₂, hw₂⟩ := replay_writeBlock hw hcached
    let s₃ := ns.mergeSort.foldl BlockCache.blockDone
      { s₂ with writers := s₂.writers.eraseIdx s.writers.length }
    have hdone : step s₂ (.writeDone s.writers.length) = some s₃ := by
      show s₂.writeDone s.writers.length = _
      unfold BlockCache.writeDone
      rw [hw₂]
      rfl
    have hlast : replay step s₂ [.writeDone s.writers.length] =
        some ([(s₂, .writeDone s.writers.length)], s₃) := by
      show (step s₂ (.writeDone s.writers.length)).bind _ = _
      rw [hdone]
      rfl
    have hlen : ns.mergeSort.length = ns.length := List.length_mergeSort ns
    rw [hlen] at hr₂
    have hrest := replay_append hr₂ hlast
    refine ⟨(s₂, .writeDone s.writers.length) :: h₂ ++ [(s, .discard n numBlocks)], s₃, ?_,
      fun m => ?_⟩
    · dsimp only
      rw [if_neg hempty]
      show (step s (.discard n numBlocks)).bind _ = _
      rw [hstep, Option.bind_some, hrest]
      rfl
    · have hnodup' : ns.mergeSort.Nodup := (List.mergeSort_perm ns _).nodup_iff.2 hnodup
      show (ns.mergeSort.foldl BlockCache.blockDone _).hash m = _
      rw [foldl_blockDone_hash hnodup', hh₂]
      show (if m ∈ ns.mergeSort then ((s.addAll ns).hash m).map _ else (s.addAll ns).hash m) = _
      rw [addAll_hash]
      simp only [List.mem_mergeSort]
      split_ifs
      · rw [Option.map_map]
        rfl
      · rfl

end Haiku.Cache
