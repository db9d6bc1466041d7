import Mathlib.Data.List.Basic

/-!
# Blocks of memory

A block is the list of what has been allocated, and positions are counted from its beginning.
Copying fails when it touches something outside of a block; to copy nothing is always possible.

* `slice` and `memcpy` read and write a part, `memmove` does both in one block;
* `memmove_open` and `memmove_close` make room in the middle of the used part of a block, and close
  a gap there; `memmove_resize` does what is needed to give a part another size;
* `memcpy_behind`: what is written behind a part of a block leaves that part alone.
-/

namespace Haiku.Lib

variable {α : Type}

/-- `len` values from `src` on -/
def slice (b : List α) (src len : ℕ) : Option (List α) :=
  if len = 0 then some [] else if src + len ≤ b.length then some ((b.drop src).take len) else none

/-- The block after `src` has been written at `dst` -/
def memcpy (b : List α) (dst : ℕ) (src : List α) : Option (List α) :=
  if src.length = 0 then some b
  else if dst + src.length ≤ b.length then some (b.take dst ++ src ++ b.drop (dst + src.length))
  else none

def memmove (b : List α) (dst src len : ℕ) : Option (List α) :=
  (slice b src len).bind (memcpy b dst)

def memset (b : List α) (dst : ℕ) (value : α) (len : ℕ) : Option (List α) :=
  memcpy b dst (List.replicate len value)

variable {a c b src spare gap : List α} {dst pos len size k : ℕ} {fill : α}

lemma slice_eq (h : pos + len ≤ b.length) : slice b pos len = some ((b.drop pos).take len) := by
  unfold slice
  split_ifs with hlen
  · rw [hlen, List.take_zero]
  · rfl

lemma length_slice (h : slice b pos len = some a) : a.length = len := by
  unfold slice at h
  split_ifs at h with hlen hin
  · rw [← Option.some.inj h, List.length_nil, hlen]
  · rw [← Option.some.inj h, List.length_take, List.length_drop]
    omega

lemma memcpy_eq (h : dst + src.length ≤ b.length) :
    memcpy b dst src = some (b.take dst ++ src ++ b.drop (dst + src.length)) := by
  unfold memcpy
  split_ifs with hlen
  · rw [List.eq_nil_of_length_eq_zero hlen, List.append_nil, List.length_nil, Nat.add_zero,
      List.take_append_drop]
  · rfl

lemma slice_append (a src c : List α) (hpos : pos = a.length) (hlen : len = src.length) :
    slice (a ++ src ++ c) pos len = some src := by
  subst hpos hlen
  rw [slice_eq (by simp)]
  simp

lemma take_drop_append (a src c : List α) (hpos : pos = a.length) (hlen : len = src.length) :
    ((a ++ src ++ c).drop pos).take len = src := by
  subst hpos hlen
  rw [List.append_assoc, List.drop_left, List.take_left]

lemma memcpy_append (a old c : List α) (hlen : src.length = old.length) (hdst : dst = a.length) :
    memcpy (a ++ old ++ c) dst src = some (a ++ src ++ c) := by
  subst hdst
  have hin : a.length + src.length ≤ (a ++ old ++ c).length := by
    simp only [List.length_append]
    omega
  have htake : (a ++ old ++ c).take a.length = a := by simp
  have hdrop : (a ++ old ++ c).drop (a.length + src.length) = c := by
    rw [hlen, ← List.length_append]
    exact List.drop_left
  rw [memcpy_eq hin, htake, hdrop]

lemma memset_append (a old c : List α) (hlen : len = old.length) (hdst : dst = a.length) :
    memset (a ++ old ++ c) dst fill len = some (a ++ List.replicate len fill ++ c) := by
  apply memcpy_append
  · rw [List.length_replicate, hlen]
  · exact hdst

lemma memmove_zero (b : List α) (dst src : ℕ) : memmove b dst src 0 = some b := rfl

lemma memset_next (a c : List α) (fill : α) (hk : k ≤ c.length) :
    memset (a ++ c) a.length fill k = some (a ++ (List.replicate k fill ++ c.drop k)) := by
  have hsplit : a ++ c = a ++ c.take k ++ c.drop k := by
    rw [List.append_assoc, List.take_append_drop]
  rw [hsplit, memset_append _ _ _ _ rfl, List.append_assoc]
  rw [List.length_take, Nat.min_eq_left hk]

lemma memset_rest (a rest : List α) (fill : α) :
    memset (a ++ rest) a.length fill ((a ++ rest).length - a.length) =
      some (a ++ List.replicate rest.length fill) := by
  have hlen : (a ++ rest).length - a.length = rest.length := by
    rw [List.length_append, Nat.add_sub_cancel_left]
  have hset : memset (a ++ rest ++ []) a.length fill rest.length =
      some (a ++ List.replicate rest.length fill ++ []) := memset_append a rest [] rfl rfl
  rw [List.append_nil, List.append_nil] at hset
  rw [hlen, hset]

lemma memcpy_filled (a c src : List α) (fill : α) (pos : ℕ) (hk : pos + src.length ≤ k)
    (hdst : dst = a.length + pos) :
    memcpy (a ++ (List.replicate k fill ++ c)) dst src =
      some (a ++ List.replicate pos fill ++ src ++
        (List.replicate (k - (pos + src.length)) fill ++ c)) := by
  have hsplit : a ++ (List.replicate k fill ++ c) =
      (a ++ List.replicate pos fill) ++ List.replicate src.length fill ++
        (List.replicate (k - (pos + src.length)) fill ++ c) := by
    have hk' : k = pos + (src.length + (k - (pos + src.length))) := by omega
    nth_rewrite 1 [hk']
    simp only [List.replicate_add, List.append_assoc]
  rw [hsplit, memcpy_append]
  · rw [List.length_replicate]
  · rw [List.length_append, List.length_replicate, hdst]

lemma memcpy_behind (h : memcpy (a ++ c) dst src = some b) (hdst : a.length ≤ dst) :
    ∃ c', b = a ++ c' ∧ c'.length = c.length := by
  unfold memcpy at h
  split_ifs at h with hlen hin
  · exact ⟨c, (Option.some.inj h).symm, rfl⟩
  · rw [List.length_append] at hin
    refine ⟨c.take (dst - a.length) ++ src ++ c.drop (dst + src.length - a.length), ?_, ?_⟩
    · rw [← Option.some.inj h, List.take_append, List.take_of_length_le hdst, List.drop_append,
        List.drop_of_length_le (by omega), List.nil_append]
      simp only [List.append_assoc]
    · simp only [List.length_append, List.length_take, List.length_drop]
      omega

lemma memcpy_next (h : memcpy (a ++ c) dst src = some b) (hdst : dst = a.length) :
    b = a ++ src ++ c.drop src.length ∧ src.length ≤ c.length := by
  subst hdst
  unfold memcpy at h
  split_ifs at h with hlen hin
  · rw [hlen, List.eq_nil_of_length_eq_zero hlen, List.drop_zero, List.append_nil]
    exact ⟨(Option.some.inj h).symm, Nat.zero_le _⟩
  · rw [List.length_append] at hin
    rw [← Option.some.inj h, List.take_left, List.drop_append, List.drop_of_length_le (by omega),
      List.nil_append, Nat.add_sub_cancel_left]
    exact ⟨rfl, by omega⟩

lemma memmove_open (a c spare : List α) (hk : k ≤ spare.length) (hdst : dst = a.length + k)
    (hpos : pos = a.length) (hlen : len = c.length) :
    memmove (a ++ c ++ spare) dst pos len =
      some (a ++ (c ++ spare).take k ++ c ++ spare.drop k) := by
  unfold memmove
  rw [slice_append a c spare hpos hlen, Option.bind_some]
  have hblock : a ++ c ++ spare =
      (a ++ (c ++ spare).take k) ++ ((c ++ spare).drop k).take c.length ++ spare.drop k := by
    have hrest : spare.drop k = ((c ++ spare).drop k).drop c.length := by
      rw [List.drop_drop, Nat.add_comm, ← List.drop_drop, List.drop_left]
    rw [hrest, List.append_assoc _ _ (List.drop _ _), List.take_append_drop]
    simp only [List.append_assoc]
    rw [List.take_append_drop]
  rw [hblock]
  apply memcpy_append
  · simp only [List.length_take, List.length_drop, List.length_append]
    omega
  · simp only [List.length_take, List.length_append]
    omega

lemma memmove_close (a gap c spare : List α) (hdst : dst = a.length)
    (hpos : pos = a.length + gap.length) (hlen : len = c.length) :
    ∃ rest, memmove (a ++ gap ++ c ++ spare) dst pos len = some (a ++ c ++ rest) ∧
      rest.length = gap.length + spare.length := by
  unfold memmove
  rw [slice_append (a ++ gap) c spare (by rw [hpos, List.length_append]) hlen, Option.bind_some]
  refine ⟨(gap ++ c ++ spare).drop c.length, ?_, ?_⟩
  · have hblock : a ++ gap ++ c ++ spare =
        a ++ (gap ++ c ++ spare).take c.length ++ (gap ++ c ++ spare).drop c.length := by
      simp only [List.append_assoc]
      rw [List.take_append_drop]
    rw [hblock]
    apply memcpy_append
    · simp only [List.length_take, List.length_append]
      omega
    · exact hdst
  · simp only [List.length_drop, List.length_append]
    omega

lemma memmove_resize (a x c spare : List α) (hsize : size ≤ x.length + spare.length)
    (hdst : dst = a.length + size) (hpos : pos = a.length + x.length) (hlen : len = c.length) :
    ∃ y rest, memmove (a ++ x ++ c ++ spare) dst pos len = some (a ++ y ++ c ++ rest) ∧
      y.length = size ∧ y.take x.length = x.take size ∧
      size + rest.length = x.length + spare.length := by
  by_cases hgrow : x.length ≤ size
  · refine ⟨x ++ (c ++ spare).take (size - x.length), spare.drop (size - x.length), ?_, ?_, ?_, ?_⟩
    · have hopen := memmove_open (a ++ x) c spare (k := size - x.length) (by omega)
        (by rw [List.length_append]; omega : dst = (a ++ x).length + (size - x.length))
        (by rw [List.length_append]; omega : pos = (a ++ x).length) hlen
      rw [hopen]
      simp only [List.append_assoc]
    · simp only [List.length_append, List.length_take]
      omega
    · rw [List.take_left, List.take_of_length_le hgrow]
    · rw [List.length_drop]
      omega
  · obtain ⟨rest, hmove, hrest⟩ := memmove_close (a ++ x.take size) (x.drop size) c spare
      (by simp; omega : dst = (a ++ x.take size).length) (by simp; omega : pos = _) hlen
    refine ⟨x.take size, rest, ?_, ?_, ?_, ?_⟩
    · rw [← hmove]
      simp only [List.append_assoc]
      rw [← List.append_assoc (x.take size), List.take_append_drop]
    · rw [List.length_take]
      omega
    · rw [List.take_take, Nat.min_eq_right (by omega)]
    · rw [List.length_drop] at hrest
      omega

end Haiku.Lib
