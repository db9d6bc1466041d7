import Mathlib.Data.List.Basic
import Mathlib.Data.Nat.Digits.Defs

/-!
# Memory as bytes at positions

A `Memory` gives the bytes at the positions that may be accessed, and `none` elsewhere; positions
are integers, counted from some base address. A read fails when it touches a position that may not
be accessed, so a computation that does not fail touches only positions that may.

* `Memory.read` and `Memory.write` work on lists of bytes; a read sees what was written last;
* `Memory.limit` forbids everything outside of a buffer;
* `number` and `digits` convert between bytes and numbers, the lowest byte first.
* `takeWhile_string`: a C string is what stands in front of its null byte.
-/

namespace Haiku.Lib

def Memory := ℤ → Option UInt8

namespace Memory

/-- Only the positions from 0 up to `size` may be accessed. -/
def limit (m : Memory) (size : ℤ) : Memory := fun p => if 0 ≤ p ∧ p < size then m p else none

def read (m : Memory) (pos : ℤ) : ℕ → Option (List UInt8)
  | 0 => some []
  | n + 1 => (m pos).bind fun b => (read m (pos + 1) n).map (b :: ·)

def write (m : Memory) (pos : ℤ) (bytes : List UInt8) : Memory :=
  fun p => if pos ≤ p ∧ p < pos + bytes.length then bytes[(p - pos).toNat]? else m p

variable {m m' : Memory} {pos size : ℤ} {n k : ℕ} {bytes bytes' : List UInt8}

lemma read_length (h : m.read pos n = some bytes) : bytes.length = n := by
  induction n generalizing pos bytes with
  | zero =>
    cases h
    rfl
  | succ n ih =>
    obtain ⟨b, _, h⟩ := Option.bind_eq_some_iff.1 h
    obtain ⟨rest, hrest, h⟩ := Option.map_eq_some_iff.1 h
    rw [← h, List.length_cons, ih hrest]

lemma read_congr (h : ∀ p, pos ≤ p → p < pos + n → m' p = m p) :
    m'.read pos n = m.read pos n := by
  induction n generalizing pos with
  | zero => rfl
  | succ n ih =>
    have hfirst : m' pos = m pos := h pos (le_refl pos) (by omega)
    have hrest : m'.read (pos + 1) n = m.read (pos + 1) n :=
      ih fun p hp hlt => h p (by omega) (by omega)
    rw [read, read, hfirst, hrest]

/-- Two memories agree on the positions from 0 up to `size`. -/
def Agree (m' m : Memory) (size : ℤ) : Prop := ∀ p, 0 ≤ p → p < size → m' p = m p

lemma agree_limit (m : Memory) (size : ℤ) : (m.limit size).Agree m size := by
  intro p hp hlt
  rw [limit, if_pos (by omega)]

lemma Agree.refl (m : Memory) (size : ℤ) : m.Agree m size := fun _ _ _ => rfl

lemma Agree.read (h : m'.Agree m size) (hpos : 0 ≤ pos) (hle : pos + n ≤ size) :
    m'.read pos n = m.read pos n := by
  apply read_congr
  intro p hp hlt
  exact h p (by omega) (by omega)

lemma read_add : m.read pos (n + k) =
    (m.read pos n).bind fun a => (m.read (pos + n) k).map (a ++ ·) := by
  induction n generalizing pos with
  | zero => simp [read]
  | succ n ih =>
    rw [Nat.succ_add, read, read, ih]
    cases m pos with
    | none => rfl
    | some b =>
      have hpos : pos + (n + 1 : ℕ) = pos + 1 + n := by omega
      rw [hpos]
      cases m.read (pos + 1) n with
      | none => rfl
      | some a =>
        cases m.read (pos + 1 + n) k with
        | none => rfl
        | some c => rfl

lemma read_append : m.read pos (bytes ++ bytes').length = some (bytes ++ bytes') ↔
    m.read pos bytes.length = some bytes ∧
      m.read (pos + bytes.length) bytes'.length = some bytes' := by
  rw [List.length_append, read_add]
  constructor
  · intro h
    obtain ⟨a, ha, h⟩ := Option.bind_eq_some_iff.1 h
    obtain ⟨b, hb, h⟩ := Option.map_eq_some_iff.1 h
    obtain ⟨hab, hbb⟩ := List.append_inj h (read_length ha)
    rw [ha, hb, hab, hbb]
    exact ⟨rfl, rfl⟩
  · rintro ⟨ha, hb⟩
    rw [ha, Option.bind_some, hb]
    rfl

lemma write_apply_of_lt {i : ℕ} (h : i < bytes.length) :
    (m.write pos bytes) (pos + i) = some bytes[i] := by
  have hi : (pos + i - pos).toNat = i := by omega
  rw [write, if_pos (by omega), hi, List.getElem?_eq_getElem h]

lemma write_apply_of_not {p : ℤ} (h : p < pos ∨ pos + bytes.length ≤ p) :
    (m.write pos bytes) p = m p := by
  rw [write, if_neg (by omega)]

lemma read_write : (m.write pos bytes).read pos bytes.length = some bytes := by
  have hpart : ∀ k, k ≤ bytes.length →
      (m.write pos bytes).read (pos + (bytes.length - k : ℕ)) k =
        some (bytes.drop (bytes.length - k)) := by
    intro k
    induction k with
    | zero =>
      intro _
      simp [read]
    | succ k ih =>
      intro hk
      have hlt : bytes.length - (k + 1) < bytes.length := by omega
      have hnext : pos + (bytes.length - (k + 1) : ℕ) + 1 = pos + (bytes.length - k : ℕ) := by
        omega
      have hsucc : bytes.length - (k + 1) + 1 = bytes.length - k := by omega
      rw [read, write_apply_of_lt hlt, hnext, ih (by omega), List.drop_eq_getElem_cons hlt, hsucc]
      rfl
  have hall := hpart bytes.length (le_refl _)
  rw [Nat.sub_self, List.drop_zero] at hall
  simpa using hall

lemma read_write_of_disjoint {p : ℤ} (h : p + n ≤ pos ∨ pos + bytes.length ≤ p) :
    (m.write pos bytes).read p n = m.read p n := by
  apply read_congr
  intro q hq hlt
  exact write_apply_of_not (by omega)

end Memory

/-! ## Numbers -/

def number (bytes : List UInt8) : ℕ := Nat.ofDigits 256 (bytes.map UInt8.toNat)

def digits : ℕ → ℕ → List UInt8
  | 0, _ => []
  | k + 1, n => UInt8.ofNat (n % 256) :: digits k (n / 256)

lemma length_digits (k n : ℕ) : (digits k n).length = k := by
  induction k generalizing n with
  | zero => rfl
  | succ k ih => rw [digits, List.length_cons, ih]

lemma number_digits (k n : ℕ) : number (digits k n) = n % 256 ^ k := by
  induction k generalizing n with
  | zero => simp [number, digits, Nat.mod_one]
  | succ k ih =>
    have hfirst : (UInt8.ofNat (n % 256)).toNat = n % 256 := by
      rw [UInt8.toNat_ofNat']
      omega
    have hrest := ih (n / 256)
    rw [number] at hrest
    rw [number, digits, List.map_cons, hfirst, Nat.ofDigits_cons, hrest, pow_succ', Nat.mod_mul]

lemma number_replicate_zero (k : ℕ) : number (List.replicate k 0) = 0 := by
  induction k with
  | zero => rfl
  | succ k ih =>
    rw [number] at ih
    rw [number, List.replicate_succ, List.map_cons, Nat.ofDigits_cons, ih]
    rfl

/-! ## C strings -/

lemma takeWhile_append_null (l rest : List UInt8) :
    (l ++ 0 :: rest).takeWhile (· ≠ 0) = l.takeWhile (· ≠ 0) := by
  rw [List.takeWhile_append, List.takeWhile_cons_of_neg (by simp), List.append_nil]
  split_ifs with hlen
  · have hfront : l.takeWhile (· ≠ 0) <+: l := List.takeWhile_prefix _
    exact (hfront.eq_of_length hlen).symm
  · rfl

lemma takeWhile_string {string : List UInt8} (h : 0 ∉ string) (rest : List UInt8) :
    (string ++ 0 :: rest).takeWhile (· ≠ 0) = string := by
  rw [List.takeWhile_append_of_pos, List.takeWhile_cons_of_neg, List.append_nil]
  · simp
  · intro b hb
    have hne : b ≠ 0 := fun hzero => h (hzero ▸ hb)
    simp [hne]

end Haiku.Lib
