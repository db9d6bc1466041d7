import Haiku.Query.KeyTheorems

/-!
# The order of keys

The binary search of a B+tree needs `compareKeys()` to order the keys of its type. A null byte at the
end of the longer string is ignored, one and no more, and the difference of two `int32` wraps.
-/

namespace Haiku.Query

def Key.IsOf : TypeCode → Key → Prop
  | .string, .string memory size => size = memory.length
  | type, .number n => type.Fits n
  | _, _ => False

def Ordered (type : TypeCode) (a b c : Key) : Prop :=
  (compareKeys type a b).sign = -(compareKeys type b a).sign ∧
    (compareKeys type a b ≤ 0 → compareKeys type b c ≤ 0 → compareKeys type a c ≤ 0)

/-- No string has two null bytes more than another one of them. The way up from an `int32` to the next,
modulo 2^32, is less than half of the circle, and that to the third no more than half of it. -/
def Comparable : TypeCode → Key → Key → Key → Prop
  | .string, .string a _, .string b _, .string c _ => ¬ (a = b ++ ['\x00'] ∧ b = c ++ ['\x00'])
  | .int32, .number a, .number b, .number c =>
    (b - a) % 2 ^ 32 ≠ 2 ^ 31 ∧
      ((b - a) % 2 ^ 32 < 2 ^ 31 → (c - b) % 2 ^ 32 ≤ 2 ^ 31 →
        (b - a) % 2 ^ 32 + (c - b) % 2 ^ 32 ≤ 2 ^ 31)
  | _, _, _, _ => True

/-! ## Strings -/

def compareStrings (s t : Text) : ℤ :=
  compareKeys .string (.string s s.length) (.string t t.length)

lemma compareStrings_cons (c : Char) (s t : Text) :
    compareStrings (c :: s) (c :: t) = compareStrings s t := compareKeys_cons c s t s.length t.length

lemma compareStrings_of_ne {c d : Char} (hcd : c ≠ d) (s t : Text) :
    compareStrings (c :: s) (d :: t) = if c < d then -1 else 1 :=
  compareKeys_of_ne hcd s t s.length t.length

lemma compareStrings_nil (t : Text) :
    compareStrings [] t = if t = ['\x00'] then 0 else -(t.length : ℤ) := by
  match t with
  | [] => rfl
  | [d] => simp [compareStrings, compareKeys, memcmp]
  | d :: e :: t => simp [compareStrings, compareKeys, memcmp]

lemma compareStrings_of_nil (s : Text) :
    compareStrings s [] = if s = ['\x00'] then 0 else (s.length : ℤ) := by
  match s with
  | [] => rfl
  | [d] => simp [compareStrings, compareKeys, memcmp]
  | d :: e :: s => simp [compareStrings, compareKeys, memcmp]

lemma compareStrings_swap (s t : Text) : compareStrings s t = -compareStrings t s := by
  induction s generalizing t with
  | nil =>
    rw [compareStrings_nil, compareStrings_of_nil]
    split_ifs <;> simp
  | cons c s ih =>
    cases t with
    | nil =>
      rw [compareStrings_nil, compareStrings_of_nil]
      split_ifs <;> simp
    | cons d t =>
      by_cases hcd : c = d
      · rw [hcd, compareStrings_cons, compareStrings_cons]
        exact ih t
      · rw [compareStrings_of_ne hcd, compareStrings_of_ne (Ne.symm hcd)]
        rcases lt_or_gt_of_ne hcd with h | h
        · rw [if_pos h, if_neg h.le.not_gt]
        · rw [if_neg h.le.not_gt, if_pos h]
          rfl

lemma compareStrings_le (s t : Text) :
    compareStrings s t ≤ 0 ↔ ¬ t < s ∨ s = t ++ ['\x00'] := by
  induction s generalizing t with
  | nil =>
    refine iff_of_true ?_ (Or.inl (List.not_lt_nil t))
    rw [compareStrings_nil]
    split_ifs <;> omega
  | cons c s ih =>
    cases t with
    | nil =>
      rw [compareStrings_of_nil, List.nil_append, or_iff_right (not_not.2 (List.nil_lt_cons c s))]
      by_cases h : c :: s = ['\x00']
      · simp [h]
      · rw [if_neg h]
        refine iff_of_false ?_ h
        rw [List.length_cons]
        omega
    | cons d t =>
      rw [List.cons_append, List.cons.injEq, List.cons_lt_cons_iff]
      by_cases hcd : c = d
      · rw [hcd, compareStrings_cons, ih]
        simp
      · rw [compareStrings_of_ne hcd]
        have hsnd : ¬ (c = d ∧ s = t ++ ['\x00']) := fun h => hcd h.1
        have hfst : ¬ (d = c ∧ t < s) := fun h => hcd h.1.symm
        rw [or_iff_left hsnd, or_iff_left hfst]
        rcases lt_or_gt_of_ne hcd with h | h
        · rw [if_pos h]
          exact iff_of_true (by decide) h.le.not_gt
        · rw [if_neg h.le.not_gt]
          exact iff_of_false (by decide) (not_not.2 h)

lemma not_lt_append {s t : Text} (h : s < t) : ¬ t < s ++ ['\x00'] := by
  induction s generalizing t with
  | nil =>
    cases t with
    | nil => exact absurd h (lt_irrefl _)
    | cons d t =>
      have hmin : '\x00' ≤ d := by
        show (0 : UInt32) ≤ d.val
        exact UInt32.le_iff_toNat_le.2 (Nat.zero_le _)
      rw [List.nil_append, List.cons_lt_cons_iff]
      rintro (hlt | ⟨-, hlt⟩)
      · exact absurd hlt hmin.not_gt
      · exact List.not_lt_nil t hlt
  | cons c s ih =>
    cases t with
    | nil => exact absurd h (List.not_lt_nil _)
    | cons d t =>
      rw [List.cons_append, List.cons_lt_cons_iff]
      rcases List.cons_lt_cons_iff.1 h with hlt | ⟨heq, hlt⟩
      · rintro (h' | ⟨h', -⟩)
        · exact absurd h' hlt.le.not_gt
        · exact absurd hlt (by rw [h']; exact lt_irrefl c)
      · rintro (h' | ⟨-, h'⟩)
        · exact absurd h' (by rw [heq]; exact lt_irrefl d)
        · exact ih hlt h'

lemma lt_append (s : Text) : s < s ++ ['\x00'] := by
  induction s with
  | nil => exact List.nil_lt_cons '\x00' []
  | cons c s ih => exact List.cons_lt_cons_iff.2 (Or.inr ⟨rfl, ih⟩)

lemma compareStrings_trans (a b c : Text) :
    (compareStrings a b ≤ 0 → compareStrings b c ≤ 0 → compareStrings a c ≤ 0) ↔
      ¬ (a = b ++ ['\x00'] ∧ b = c ++ ['\x00']) := by
  rw [compareStrings_le, compareStrings_le, compareStrings_le]
  constructor
  · rintro h ⟨hab, hbc⟩
    have hca : c < a := by
      rw [hab, hbc]
      exact lt_trans (lt_append c) (lt_append _)
    rcases h (Or.inr hab) (Or.inr hbc) with h | h
    · exact h hca
    · rw [hab, List.append_left_inj] at h
      exact absurd (lt_append c) (by rw [← hbc, h]; exact lt_irrefl c)
  · rintro hno (hab | hab) (hbc | hbc)
    · exact Or.inl (not_lt.2 (le_trans (not_lt.1 hab) (not_lt.1 hbc)))
    · -- below the string with the null byte, or equal to it
      rcases lt_or_eq_of_le (not_lt.1 hab) with h | h
      · left
        intro hca
        rw [hbc] at h
        exact not_lt_append hca h
      · exact Or.inr (h.trans hbc)
    · rcases lt_or_eq_of_le (not_lt.1 hbc) with h | h
      · left
        rw [hab]
        exact not_lt_append h
      · exact Or.inr (by rw [hab, h])
    · exact absurd ⟨hab, hbc⟩ hno

/-! ## Numbers -/

lemma bmod_word (x : ℤ) : x.bmod (2 ^ 32) =
    if x % 4294967296 < 2147483648 then x % 4294967296 else x % 4294967296 - 4294967296 :=
  Int.bmod_def x (2 ^ 32)

lemma int32_ordered (a b c : ℤ) :
    Ordered .int32 (.number a) (.number b) (.number c) ↔
      Comparable .int32 (.number a) (.number b) (.number c) := by
  have hcmp : ∀ m n, compareKeys .int32 (.number m) (.number n) = (m - n).bmod (2 ^ 32) :=
    fun _ _ => rfl
  have hsign : ((a - b).bmod (2 ^ 32)).sign = -((b - a).bmod (2 ^ 32)).sign ↔
      (b - a) % 2 ^ 32 ≠ 2 ^ 31 := by
    rw [← Int.sign_neg, bmod_word, bmod_word]
    constructor
    · intro h heq
      -- halfway round, both differences are the least `int32`
      have hb : (b - a) % 4294967296 = 2147483648 := heq
      have ha : (a - b) % 4294967296 = 2147483648 := by omega
      rw [ha, hb] at h
      exact absurd h (by decide)
    · intro h
      have h' : (if (a - b) % 4294967296 < 2147483648 then (a - b) % 4294967296
            else (a - b) % 4294967296 - 4294967296) =
          -(if (b - a) % 4294967296 < 2147483648 then (b - a) % 4294967296
            else (b - a) % 4294967296 - 4294967296) := by omega
      rw [h']
  have hle : ∀ m n : ℤ, (m - n).bmod (2 ^ 32) ≤ 0 ↔ (n - m) % 2 ^ 32 ≤ 2 ^ 31 := by
    intro m n
    rw [bmod_word]
    omega
  unfold Ordered Comparable
  rw [hcmp, hcmp, hcmp, hcmp, hsign, hle, hle, hle]
  refine and_congr_right fun hne => ?_
  omega

lemma number_ordered {compare : ℤ → ℤ → ℤ}
    (h : ∀ m n, compare m n = if m = n then 0 else if m > n then 1 else -1) (a b c : ℤ) :
    (compare a b).sign = -(compare b a).sign ∧
      (compare a b ≤ 0 → compare b c ≤ 0 → compare a c ≤ 0) := by
  have hle : ∀ m n, compare m n ≤ 0 ↔ m ≤ n := by
    intro m n
    rw [h]
    split_ifs <;> omega
  refine ⟨?_, ?_⟩
  · rw [h, h]
    rcases lt_trichotomy a b with hab | hab | hab
    · rw [if_neg hab.ne, if_neg (by omega), if_neg hab.ne', if_pos hab]
      rfl
    · rw [if_pos hab, if_pos hab.symm]
      rfl
    · rw [if_neg hab.ne', if_pos hab, if_neg hab.ne, if_neg (by omega)]
      rfl
  · rw [hle, hle, hle]
    exact le_trans

/-! ## All types -/

/-- `compareKeys()` orders three keys of a type if and only if no null byte is ignored twice, and no
difference wraps. -/
theorem keys_ordered {type : TypeCode} {a b c : Key} (ha : a.IsOf type) (hb : b.IsOf type)
    (hc : c.IsOf type) : Ordered type a b c ↔ Comparable type a b c := by
  match type, a, b, c with
  | .string, .string a m, .string b n, .string c k =>
    have hm : m = a.length := ha
    have hn : n = b.length := hb
    have hk : k = c.length := hc
    have hswap : (compareStrings a b).sign = -(compareStrings b a).sign := by
      rw [compareStrings_swap a b, Int.sign_neg]
    rw [hm, hn, hk]
    show (compareStrings a b).sign = -(compareStrings b a).sign ∧ _ ↔ _
    rw [and_iff_right hswap]
    exact compareStrings_trans a b c
  | .int32, .number a, .number b, .number c => exact int32_ordered a b c
  | .uint32, .number a, .number b, .number c =>
    exact iff_of_true (number_ordered (fun _ _ => rfl) a b c) trivial
  | .int64, .number a, .number b, .number c =>
    exact iff_of_true (number_ordered (fun _ _ => rfl) a b c) trivial
  | .uint64, .number a, .number b, .number c =>
    exact iff_of_true (number_ordered (fun _ _ => rfl) a b c) trivial

theorem keys_ordered_first :
    (Key.IsOf .string (.string ['a', '\x00'] 2) ∧ Key.IsOf .string (.string ['a'] 1) ∧
      Key.IsOf .string (.string ['b'] 1)) ∧
    (Ordered .string (.string ['a', '\x00'] 2) (.string ['a'] 1) (.string ['b'] 1) ↔
      Comparable .string (.string ['a', '\x00'] 2) (.string ['a'] 1) (.string ['b'] 1)) :=
  ⟨⟨rfl, rfl, rfl⟩, keys_ordered rfl rfl rfl⟩

/-- A string with two null bytes is above that without, and not above the one between them; and the
difference of the least `int32` and 1 is the greatest. -/
theorem not_keys_ordered :
    ¬ Ordered .string (.string ['x', '\x00', '\x00'] 3) (.string ['x', '\x00'] 2)
      (.string ['x'] 1) ∧
    ¬ Ordered .int32 (.number (-2 ^ 31)) (.number (-1)) (.number 1) := by
  refine ⟨?_, ?_⟩
  · rintro ⟨-, h⟩
    exact absurd (h (by decide) (by decide)) (by decide)
  · rintro ⟨-, h⟩
    exact absurd (h (by decide) (by decide)) (by decide)

end Haiku.Query
