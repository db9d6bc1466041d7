import Haiku.Query.Parser

/-!
# Keys in order

`compareKeys()` compares strings by their bytes, a null byte at the end of the attribute apart, and
numbers by their value, unless the difference of two `int32` overflows. The literals are read as what
they stand for.
-/

namespace Haiku.Query

/-! ## Orders -/

/-- A result of a comparison says what the operator asks for. -/
def Agrees {α : Type} [LinearOrder α] (op : Op) (r : ℤ) (a b : α) : Prop :=
  (r = 0 ↔ a = b) ∧ (op = .equal ∨ op = .unequal ∨ (r < 0 ↔ a < b))

lemma Agrees.of_iff {α : Type} [LinearOrder α] {op : Op} {r : ℤ} {a b : α} (h₀ : r = 0 ↔ a = b)
    (h : r < 0 ↔ a < b) : Agrees op r a b := ⟨h₀, Or.inr (Or.inr h)⟩

lemma compareTo_iff {α : Type} [LinearOrder α] {e : Equation} {key : Key} {a b : α}
    (h : Agrees e.fOp (e.compare key) a b) : e.compareTo key = true ↔ e.fOp.Holds a b := by
  unfold Equation.compareTo
  unfold Agrees at h
  have hle : a ≤ b ↔ a < b ∨ a = b := le_iff_lt_or_eq
  have hlt : b < a ↔ ¬ (a < b ∨ a = b) := by rw [← hle, not_le]
  have hge : b ≤ a ↔ ¬ a < b := by rw [not_lt]
  cases hop : e.fOp with
  | equal =>
    rw [hop] at h
    show decide _ = true ↔ a = b
    rw [decide_eq_true_iff]
    exact h.1
  | unequal =>
    rw [hop] at h
    show decide _ = true ↔ a ≠ b
    rw [decide_eq_true_iff, ne_eq, ne_eq, h.1]
  | greaterThan =>
    have h' : e.compare key < 0 ↔ a < b := by simpa [hop] using h.2
    show decide _ = true ↔ b < a
    rw [decide_eq_true_iff, hlt, ← h', ← h.1]
    omega
  | lessThan =>
    have h' : e.compare key < 0 ↔ a < b := by simpa [hop] using h.2
    show decide _ = true ↔ a < b
    rw [decide_eq_true_iff, h']
  | greaterThanOrEqual =>
    have h' : e.compare key < 0 ↔ a < b := by simpa [hop] using h.2
    show decide _ = true ↔ b ≤ a
    rw [decide_eq_true_iff, hge, ← h']
    omega
  | lessThanOrEqual =>
    have h' : e.compare key < 0 ↔ a < b := by simpa [hop] using h.2
    show decide _ = true ↔ a ≤ b
    rw [decide_eq_true_iff, hle, ← h', ← h.1]
    omega

lemma Op.holds_complement {α : Type} [LinearOrder α] (op : Op) (a b : α) :
    op.complement.Holds a b ↔ ¬ op.Holds a b := by
  cases op with
  | equal => exact Iff.rfl
  | unequal => exact not_not.symm
  | greaterThan => exact not_lt.symm
  | lessThan => exact not_lt.symm
  | greaterThanOrEqual => exact not_le.symm
  | lessThanOrEqual => exact not_le.symm

/-! ## Strings -/

lemma compareKeys_strings (key1 key2 : Text) (n1 n2 : ℕ) :
    compareKeys .string (.string key1 n1) (.string key2 n2) =
      if memcmp (min n1 n2) key1 key2 = 0 then
        if n1 = n2 + 1 ∧ key1[n2]? = some '\x00' ∨ n2 = n1 + 1 ∧ key2[n1]? = some '\x00' then 0
        else (n1 : ℤ) - n2
      else memcmp (min n1 n2) key1 key2 := rfl

lemma memcmp_cons (n : ℕ) (c d : Char) (key1 key2 : Text) :
    memcmp (n + 1) (c :: key1) (d :: key2) =
      if c = d then memcmp n key1 key2 else if c < d then -1 else 1 := rfl

lemma compareKeys_cons (c : Char) (key1 key2 : Text) (n1 n2 : ℕ) :
    compareKeys .string (.string (c :: key1) (n1 + 1)) (.string (c :: key2) (n2 + 1)) =
      compareKeys .string (.string key1 n1) (.string key2 n2) := by
  have hmin : min (n1 + 1) (n2 + 1) = min n1 n2 + 1 := by omega
  rw [compareKeys_strings, compareKeys_strings, hmin, memcmp_cons, if_pos rfl]
  simp only [List.getElem?_cons_succ, Nat.add_right_cancel_iff, Nat.cast_add, Nat.cast_one,
    add_sub_add_right_eq_sub]

variable {c : Char}

lemma compareKeys_of_ne {d : Char} (hcd : c ≠ d) (key1 key2 : Text) (n1 n2 : ℕ) :
    compareKeys .string (.string (c :: key1) (n1 + 1)) (.string (d :: key2) (n2 + 1)) =
      if c < d then -1 else 1 := by
  have hmin : min (n1 + 1) (n2 + 1) = min n1 n2 + 1 := by omega
  have hne : (if c < d then (-1 : ℤ) else 1) ≠ 0 := by split_ifs <;> decide
  rw [compareKeys_strings, hmin, memcmp_cons, if_neg hcd, if_neg hne]

variable {s : Text}

lemma compareKeys_string (op : Op) {v : Text} (hs : '\x00' ∉ s) (hv : '\x00' ∉ v)
    (behind : Text) :
    Agrees op (compareKeys .string (.string (s ++ behind) s.length) (.string v v.length)) s v ∧
      Agrees op (compareKeys .string (.string (s ++ '\x00' :: behind) (s.length + 1))
        (.string v v.length)) s v := by
  induction s generalizing v with
  | nil =>
    cases v with
    | nil =>
      refine ⟨Agrees.of_iff ?_ ?_, Agrees.of_iff ?_ ?_⟩ <;> simp [compareKeys, memcmp]
    | cons d v =>
      have hd : d ≠ '\x00' := fun h => hv (by rw [h]; exact List.mem_cons_self)
      have hpos : '\x00' < d := by
        refine lt_of_le_of_ne ?_ hd.symm
        show (0 : UInt32) ≤ d.val
        exact UInt32.le_iff_toNat_le.2 (Nat.zero_le _)
      have hlt : ([] : Text) < d :: v := List.nil_lt_cons d v
      refine ⟨?_, ?_⟩
      · have h : compareKeys .string (.string ([] ++ behind) ([] : Text).length)
            (.string (d :: v) (d :: v).length) = -((v.length : ℤ) + 1) := by
          simp [compareKeys, memcmp, hd]
        rw [h]
        refine Agrees.of_iff (iff_of_false (by omega) (by simp)) (iff_of_true (by omega) hlt)
      · have h := compareKeys_of_ne hd.symm behind v 0 v.length
        rw [if_pos hpos] at h
        show Agrees op (compareKeys .string (.string ('\x00' :: behind) (0 + 1))
          (.string (d :: v) (v.length + 1))) [] (d :: v)
        rw [h]
        exact Agrees.of_iff (iff_of_false (by decide) (by simp)) (iff_of_true (by decide) hlt)
  | cons c s ih =>
    have hc : c ≠ '\x00' := fun h => hs (by rw [h]; exact List.mem_cons_self)
    have hs' : '\x00' ∉ s := fun h => hs (List.mem_cons_of_mem c h)
    cases v with
    | nil =>
      have hlt : ¬ (c :: s) < ([] : Text) := List.not_lt_nil _
      refine ⟨?_, ?_⟩
      · have h : compareKeys .string (.string (c :: s ++ behind) (c :: s).length)
            (.string [] ([] : Text).length) = (s.length : ℤ) + 1 := by
          simp [compareKeys, memcmp, hc]
        rw [h]
        exact Agrees.of_iff (iff_of_false (by omega) (by simp)) (iff_of_false (by omega) hlt)
      · have h : compareKeys .string (.string (c :: s ++ '\x00' :: behind) ((c :: s).length + 1))
            (.string [] ([] : Text).length) = (s.length : ℤ) + 1 + 1 := by
          simp [compareKeys, memcmp]
        rw [h]
        exact Agrees.of_iff (iff_of_false (by omega) (by simp)) (iff_of_false (by omega) hlt)
    | cons d v =>
      have hv' : '\x00' ∉ v := fun h => hv (List.mem_cons_of_mem d h)
      by_cases hcd : c = d
      · subst hcd
        have hiff : ∀ r, Agrees op r s v → Agrees op r (c :: s) (c :: v) := by
          intro r h
          unfold Agrees at h ⊢
          rw [List.cons_lt_cons_iff, List.cons.injEq]
          simpa using h
        have h := ih hs' hv'
        refine ⟨hiff _ ?_, hiff _ ?_⟩
        · show Agrees op (compareKeys .string (.string (c :: (s ++ behind)) (s.length + 1))
            (.string (c :: v) (v.length + 1))) s v
          rw [compareKeys_cons]
          exact h.1
        · show Agrees op (compareKeys .string (.string (c :: (s ++ '\x00' :: behind))
            (s.length + 1 + 1)) (.string (c :: v) (v.length + 1))) s v
          rw [compareKeys_cons]
          exact h.2
      · have hne : c :: s ≠ d :: v := fun h => hcd (List.cons.inj h).1
        have hlt : (c :: s) < (d :: v) ↔ c < d := by
          rw [List.cons_lt_cons_iff]
          exact or_iff_left fun h => hcd h.1
        have hr : Agrees op (if c < d then (-1 : ℤ) else 1) (c :: s) (d :: v) := by
          refine Agrees.of_iff (iff_of_false ?_ hne) ?_
          · split_ifs <;> decide
          · rw [hlt]
            split_ifs with h <;> simp [h]
        refine ⟨?_, ?_⟩
        · show Agrees op (compareKeys .string (.string (c :: (s ++ behind)) (s.length + 1))
            (.string (d :: v) (v.length + 1))) (c :: s) (d :: v)
          rw [compareKeys_of_ne hcd]
          exact hr
        · show Agrees op (compareKeys .string (.string (c :: (s ++ '\x00' :: behind))
            (s.length + 1 + 1)) (.string (d :: v) (v.length + 1))) (c :: s) (d :: v)
          rw [compareKeys_of_ne hcd]
          exact hr

lemma Agrees.of_take {op : Op} {r : ℤ} {v : Text} {n : ℕ} (hv : v.length < n)
    (h : Agrees op r (s.take n) v) : Agrees op r s v := by
  have hiff : (s.take n = v ↔ s = v) ∧ (s.take n < v ↔ s < v) := by
    clear h
    induction v generalizing s n with
    | nil =>
      cases s with
      | nil => simp
      | cons c s =>
        have hn : n = n - 1 + 1 := by have : 0 < n := hv; omega
        rw [hn, List.take_succ_cons]
        exact ⟨iff_of_false (by simp) (by simp), iff_of_false (List.not_lt_nil _) (List.not_lt_nil _)⟩
    | cons d v ih =>
      cases s with
      | nil => simp
      | cons c s =>
        have hlen : v.length + 1 < n := hv
        have hn : n = n - 1 + 1 := by omega
        have h := @ih s (n - 1) (by omega)
        rw [hn, List.take_succ_cons, List.cons.injEq, List.cons.injEq, List.cons_lt_cons_iff,
          List.cons_lt_cons_iff, h.1, h.2]
        exact ⟨Iff.rfl, Iff.rfl⟩
  unfold Agrees at h ⊢
  rw [← hiff.1, ← hiff.2]
  exact h

lemma cString_of_dropLast {data : Text} (h : '\x00' ∉ data.dropLast) :
    data = Equation.cString data ∨ data = Equation.cString data ++ ['\x00'] := by
  unfold Equation.cString
  induction data with
  | nil => exact Or.inl rfl
  | cons c data ih =>
    cases data with
    | nil =>
      by_cases hc : c = '\x00'
      · right; simp [hc]
      · left; simp [hc]
    | cons d data =>
      have hmem : '\x00' ∉ c :: (d :: data).dropLast := h
      have hc : c ≠ '\x00' := fun hc => hmem (by rw [hc]; exact List.mem_cons_self)
      have ih' := ih fun h' => hmem (List.mem_cons_of_mem c h')
      have htake : (c :: d :: data).takeWhile (· != '\x00') =
          c :: (d :: data).takeWhile (· != '\x00') := by
        rw [List.takeWhile_cons_of_pos (by simpa using hc)]
      rw [htake]
      rcases ih' with h' | h'
      · left; rw [← h']
      · right; rw [List.cons_append, ← h']

lemma notMem_cString (data : Text) : '\x00' ∉ Equation.cString data := by
  intro h
  have hne := (List.all_eq_true.1 List.all_takeWhile) _ h
  exact absurd hne (by decide)

/-! ## Numbers -/

variable {n : ℤ}

lemma compareKeys_int32 (op : Op) {m : ℤ} (hm : TypeCode.int32.Fits m)
    (hn : TypeCode.int32.Fits n) (h : op = .equal ∨ op = .unequal ∨ TypeCode.int32.Fits (m - n)) :
    Agrees op (compareKeys .int32 (.number m) (.number n)) m n := by
  unfold TypeCode.Fits at hm hn h
  have hr : compareKeys .int32 (.number m) (.number n) = (m - n).bmod (2 ^ 32) := rfl
  have hmod : (m - n).bmod (2 ^ 32) =
      if (m - n) % 4294967296 < 2147483648 then (m - n) % 4294967296
      else (m - n) % 4294967296 - 4294967296 := Int.bmod_def (m - n) (2 ^ 32)
  rw [hr, hmod]
  unfold Agrees
  refine ⟨by omega, ?_⟩
  rcases h with h | h | h
  · exact Or.inl h
  · exact Or.inr (Or.inl h)
  · exact Or.inr (Or.inr (by omega))

lemma agrees_order (op : Op) (m n : ℤ) :
    Agrees op (if m = n then 0 else if m > n then 1 else -1) m n := by
  refine Agrees.of_iff ?_ ?_
  · split_ifs with h h' <;> simp [h]
  · split_ifs with h h'
    · simp [h]
    · exact iff_of_false (by decide) (not_lt.2 h'.le)
    · exact iff_of_true (by decide) (lt_of_le_of_ne (not_lt.1 h') h)

/-! ## Literals -/

variable {base : ℕ}

lemma digit_range {value : ℕ} (h : digit base c = some value) :
    '0' ≤ c ∧ c ≤ '9' ∨ 'a' ≤ c ∧ c ≤ 'z' ∨ 'A' ≤ c ∧ c ≤ 'Z' := by
  unfold digit at h
  by_contra hno
  have h1 : ¬ ('0' ≤ c ∧ c ≤ '9') := fun h => hno (Or.inl h)
  have h2 : ¬ ('a' ≤ c ∧ c ≤ 'z') := fun h => hno (Or.inr (Or.inl h))
  have h3 : ¬ ('A' ≤ c ∧ c ≤ 'Z') := fun h => hno (Or.inr (Or.inr h))
  simp [h1, h2, h3] at h

variable {ds : List ℕ}

lemma digits_eq (n : ℕ) (h : s.map (digit base) = ds.map some) :
    digits base n s = Nat.ofDigits base (ds.reverse ++ [n]) := by
  induction s generalizing n ds with
  | nil =>
    have hds : ds = [] := by simpa using h.symm
    subst hds
    simp [digits]
  | cons c s ih =>
    cases ds with
    | nil => simp at h
    | cons d ds =>
      have hc : digit base c = some d := (List.cons.inj h).1
      have hs : s.map (digit base) = ds.map some := (List.cons.inj h).2
      unfold digits
      rw [hc]
      show digits base (n * base + d) s = _
      rw [ih (n * base + d) hs, List.reverse_cons, List.append_assoc, Nat.ofDigits_append,
        Nat.ofDigits_append]
      simp only [List.cons_append, List.nil_append, Nat.ofDigits_cons, Nat.ofDigits_nil]
      ring

lemma digits_zero (h : s.map (digit base) = ds.map some) :
    digits base 0 s = Nat.ofDigits base ds.reverse := by
  rw [digits_eq 0 h, Nat.ofDigits_append]
  simp

def IsLiteralChar (c : Char) : Prop :=
  '0' ≤ c ∧ c ≤ '9' ∨ 'a' ≤ c ∧ c ≤ 'z' ∨ 'A' ≤ c ∧ c ≤ 'Z'

lemma isLiteralChar_of_map (h : s.map (digit base) = ds.map some) : ∀ c ∈ s, IsLiteralChar c := by
  intro c hc
  have hmem : digit base c ∈ ds.map some := by
    rw [← h]
    exact List.mem_map_of_mem hc
  obtain ⟨d, -, hd⟩ := List.mem_map.1 hmem
  exact digit_range hd.symm

lemma IsLiteralChar.ne {d : Char} (h : IsLiteralChar c) (hd : ¬ IsLiteralChar d) : c ≠ d :=
  fun hcd => hd (hcd ▸ h)

lemma Numeral.chars {n : ℕ} (h : Numeral n s) : s ≠ [] ∧ ∀ c ∈ s, IsLiteralChar c := by
  cases h with
  | decimal hs ne => exact ⟨ne, isLiteralChar_of_map hs⟩
  | octal hs =>
    refine ⟨by simp, fun c hc => ?_⟩
    rcases List.mem_cons.1 hc with hc | hc
    · rw [hc]; unfold IsLiteralChar; decide
    · exact isLiteralChar_of_map hs c hc
  | hexadecimal hx hs =>
    refine ⟨by simp, fun c hc => ?_⟩
    rcases List.mem_cons.1 hc with hc | hc
    · rw [hc]; unfold IsLiteralChar; decide
    · rcases List.mem_cons.1 hc with hc | hc
      · rw [hc]; rcases hx with hx | hx <;> (rw [hx]; unfold IsLiteralChar; decide)
      · exact isLiteralChar_of_map hs c hc

lemma Numeral.unsignedNumber {n : ℕ} (h : Numeral n s) : Query.unsignedNumber s = n := by
  unfold Query.unsignedNumber
  cases h with
  | decimal hs ne first =>
    have hpeek : peek s ≠ '0' := by
      cases s with
      | nil => exact absurd rfl ne
      | cons c s => simpa [peek] using first
    rw [if_neg hpeek]
    exact digits_zero hs
  | @octal s ds hs =>
    have hx : ¬ ((peek s = 'x' ∨ peek s = 'X') ∧ (digit 16 (peek (s.drop 1))).isSome) := by
      rintro ⟨hx, -⟩
      cases s with
      | nil => exact absurd hx (by decide)
      | cons c s =>
        cases ds with
        | nil => simp at hs
        | cons d ds =>
          have hd : digit 8 c = some d := (List.cons.inj hs).1
          rcases hx with hx | hx <;> (rw [show c = _ from hx] at hd; exact absurd hd (by simp [digit]))
    have hd : digits 8 0 ('0' :: s) = digits 8 0 s := rfl
    show (if (peek s = 'x' ∨ peek s = 'X') ∧ (digit 16 (peek (s.drop 1))).isSome then _ else _) = _
    rw [if_neg hx, hd]
    exact digits_zero hs
  | @hexadecimal x s ds hx hs ne =>
    have hsome : (digit 16 (peek s)).isSome = true := by
      cases s with
      | nil => exact absurd rfl ne
      | cons c s =>
        cases ds with
        | nil => simp at hs
        | cons d ds => rw [show digit 16 (peek (c :: s)) = some d from (List.cons.inj hs).1]; rfl
    show (if (x = 'x' ∨ x = 'X') ∧ (digit 16 (peek s)).isSome then digits 16 0 s else _) = _
    rw [if_pos ⟨hx, hsome⟩]
    exact digits_zero hs

lemma signedNumber_of_numeral {n : ℕ} (h : Numeral n s) :
    signedNumber s = (false, n) ∧ signedNumber ('-' :: s) = (true, n) := by
  have hn := h.unsignedNumber
  refine ⟨?_, ?_⟩
  · cases hs : s with
    | nil => exact absurd hs h.chars.1
    | cons c t =>
      have hc : IsLiteralChar c := h.chars.2 c (by rw [hs]; exact List.mem_cons_self)
      have hspace : (c == ' ' || ('\t' ≤ c && c ≤ '\r')) = false := by
        have h1 : c ≠ ' ' := hc.ne (by unfold IsLiteralChar; decide)
        have h2 : ¬ c ≤ '\r' := by
          intro hle
          rcases hc with hc | hc | hc <;> exact absurd (hc.1.trans hle) (by decide)
        simp [h1, h2]
      have hdrop : (c :: t).dropWhile (fun c => c == ' ' || ('\t' ≤ c && c ≤ '\r')) = c :: t :=
        List.dropWhile_cons_of_neg (by simpa using hspace)
      have h1 : c ≠ '-' := hc.ne (by unfold IsLiteralChar; decide)
      have h2 : c ≠ '+' := hc.ne (by unfold IsLiteralChar; decide)
      unfold signedNumber
      rw [hdrop]
      show (if c = '-' then _ else if c = '+' then _ else (false, unsignedNumber (c :: t))) = _
      rw [if_neg h1, if_neg h2, ← hs, hn]
  · show (true, unsignedNumber s) = _
    rw [hn]

lemma signedNumber_of_text (h : (Value.number n).Text s) :
    (if (signedNumber s).1 then -((signedNumber s).2 : ℤ) else (signedNumber s).2) = n := by
  cases h with
  | positive h => rw [(signedNumber_of_numeral h).1]; rfl
  | negative h => rw [(signedNumber_of_numeral h).2]; rfl

lemma strtol_of_text (w : ℕ) (h : (Value.number n).Text s)
    (hn : -2 ^ (w - 1) ≤ n ∧ n < 2 ^ (w - 1)) : strtol w s = n := by
  unfold strtol
  dsimp only
  rw [signedNumber_of_text h]
  have hmin : min (2 ^ (w - 1) - 1) n = n := min_eq_right (by omega)
  rw [hmin]
  exact max_eq_right hn.1

lemma strtoul_of_text (w : ℕ) (h : (Value.number n).Text s) (hn : 0 ≤ n ∧ n < 2 ^ w) :
    strtoul w s = n := by
  have hsigned := signedNumber_of_text h
  unfold strtoul
  dsimp only
  have hlt : ¬ (signedNumber s).2 ≥ 2 ^ w := by
    intro hle
    have hle' : (2 : ℤ) ^ w ≤ (signedNumber s).2 := by exact_mod_cast hle
    split_ifs at hsigned <;> omega
  rw [if_neg hlt, hsigned]
  exact Int.emod_eq_of_lt hn.1 hn.2

lemma isPattern_of_text (h : (Value.number n).Text s) : isPattern s = false := by
  have hchars : ∀ c ∈ s, isPatternSymbol c = false := by
    have hlit : ∀ c, IsLiteralChar c → isPatternSymbol c = false := by
      intro c hc
      have h1 : c ≠ '*' := hc.ne (by unfold IsLiteralChar; decide)
      have h2 : c ≠ '?' := hc.ne (by unfold IsLiteralChar; decide)
      have h3 : c ≠ '[' := hc.ne (by unfold IsLiteralChar; decide)
      simp [isPatternSymbol, h1, h2, h3]
    cases h with
    | positive h => exact fun c hc => hlit c (h.chars.2 c hc)
    | negative h =>
      intro c hc
      rcases List.mem_cons.1 hc with hc | hc
      · rw [hc]; rfl
      · exact hlit c (h.chars.2 c hc)
  unfold isPattern getFirstPatternSymbol
  rw [List.findIdx?_isSome]
  simpa using hchars

end Haiku.Query
