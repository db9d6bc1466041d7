import Haiku.Bfs.SmallData
import Mathlib.Data.List.TakeWhile

/-!
# The items of the small_data section

* `IsSection`: behind the `bfs_inode` stand the bytes of items, without gaps, and behind them what
  ends the section.
* `find_of_first` and `last_eq`: where the loops over the items end.
-/

namespace Haiku.Bfs

open Haiku.Lib

structure Item where
  type : ℕ
  name : List UInt8
  /-- the two bytes between the null byte and the data -/
  pad : UInt8 × UInt8
  data : List UInt8
  /-- the byte behind the data -/
  tail : UInt8
  type_lt : type < 2 ^ 32
  name_ne : name ≠ []
  name_null : 0 ∉ name
  name_lt : name.length < 2 ^ 16
  data_lt : data.length < 2 ^ 16

def fields (type nameSize dataSize : ℕ) : List UInt8 :=
  digits 4 type ++ digits 2 nameSize ++ digits 2 dataSize

lemma length_fields (type nameSize dataSize : ℕ) :
    (fields type nameSize dataSize).length = 8 := by
  simp only [fields, List.length_append, length_digits]

namespace Item

def bytes (item : Item) : List UInt8 :=
  fields item.type item.name.length item.data.length ++
    (item.name ++ [0, item.pad.1, item.pad.2]) ++ (item.data ++ [item.tail])

def size (item : Item) : ℕ := 8 + item.name.length + 3 + item.data.length + 1

lemma length_bytes (item : Item) : item.bytes.length = item.size := by
  simp only [bytes, size, List.length_append, length_fields, List.length_cons, List.length_nil]
  omega

lemma name_pos (item : Item) : 0 < item.name.length := List.length_pos_of_ne_nil item.name_ne

end Item

/-- The items of a section -/
def layout (items : List Item) : List UInt8 := items.flatMap Item.bytes

/-- What ends a section: no item fits any more, or its name has no length. -/
def Ended (rest : List UInt8) : Prop :=
  rest.length < 8 ∨ number ((rest.drop 4).take 2) = 0

/-- The small_data section of the inode `node` consists of `items`. -/
structure IsSection (header : List UInt8) (items : List Item) (node : List UInt8) : Prop where
  header_length : header.length = SmallData.start
  node_le : node.length ≤ 2 ^ 16
  eq : ∃ rest, node = header ++ layout items ++ rest ∧ Ended rest

variable {header node rest a b wanted : List UInt8} {items pre post : List Item} {item : Item}

@[simp] lemma layout_nil : layout [] = [] := rfl

@[simp] lemma layout_cons (item : Item) (items : List Item) :
    layout (item :: items) = item.bytes ++ layout items := rfl

@[simp] lemma layout_append (pre post : List Item) :
    layout (pre ++ post) = layout pre ++ layout post := List.flatMap_append

lemma append_layout_cons (a : List UInt8) (item : Item) (items : List Item) (rest : List UInt8) :
    a ++ layout (item :: items) ++ rest = a ++ item.bytes ++ (layout items ++ rest) := by
  simp only [layout_cons, List.append_assoc]

lemma append_layout_tail (a : List UInt8) (item : Item) (items : List Item) (rest : List UInt8) :
    a ++ layout (item :: items) ++ rest = (a ++ item.bytes) ++ layout items ++ rest := by
  simp only [layout_cons, List.append_assoc]

lemma length_le_layout (items : List Item) : 12 * items.length ≤ (layout items).length := by
  induction items with
  | nil => exact Nat.zero_le _
  | cons item items ih =>
    rw [layout_cons, List.length_append, List.length_cons, Item.length_bytes, Item.size]
    omega

lemma ended_zeros (k : ℕ) : Ended (List.replicate k 0) := by
  right
  rw [List.drop_replicate, List.take_replicate]
  exact number_replicate_zero _

lemma ended_zeros_append {k : ℕ} (hk : 8 ≤ k) (rest : List UInt8) :
    Ended (List.replicate k 0 ++ rest) := by
  right
  have hdrop :
    (List.replicate k (0 : UInt8) ++ rest).drop 4 = List.replicate (k - 4) 0 ++ rest := by
    rw [List.drop_append_of_le_length (by simp; omega), List.drop_replicate]
  rw [hdrop, List.take_append_of_le_length (by simp; omega), List.take_replicate]
  exact number_replicate_zero _

/-! ## The fields of an item -/

namespace SmallData

section

variable (a b : List UInt8) (t n d : ℕ)

lemma type_fields (ht : t < 2 ^ 32) : type (a ++ fields t n d ++ b) a.length = t := by
  have hsplit : a ++ fields t n d ++ b = a ++ digits 4 t ++ (digits 2 n ++ digits 2 d ++ b) := by
    simp only [fields, List.append_assoc]
  unfold type
  rw [hsplit, take_drop_append _ _ _ rfl (length_digits 4 t).symm, number_digits]
  exact Nat.mod_eq_of_lt ht

lemma nameSize_fields : nameSize (a ++ fields t n d ++ b) a.length = n % 2 ^ 16 := by
  have hsplit : a ++ fields t n d ++ b = (a ++ digits 4 t) ++ digits 2 n ++ (digits 2 d ++ b) := by
    simp only [fields, List.append_assoc]
  have hpos : a.length + 4 = (a ++ digits 4 t).length := by rw [List.length_append, length_digits]
  unfold nameSize
  rw [hsplit, take_drop_append _ _ _ hpos (length_digits 2 n).symm, number_digits]
  rfl

lemma dataSize_fields : dataSize (a ++ fields t n d ++ b) a.length = d % 2 ^ 16 := by
  have hsplit : a ++ fields t n d ++ b = (a ++ digits 4 t ++ digits 2 n) ++ digits 2 d ++ b := by
    simp only [fields, List.append_assoc]
  have hpos : a.length + 6 = (a ++ digits 4 t ++ digits 2 n).length := by
    simp only [List.length_append, length_digits]
  unfold dataSize
  rw [hsplit, take_drop_append _ _ _ hpos (length_digits 2 d).symm, number_digits]
  rfl

lemma name_fields {string : List UInt8} (h : 0 ∉ string) :
    name (a ++ fields t n d ++ (string ++ 0 :: b)) a.length = string := by
  have hpos : a.length + 8 = (a ++ fields t n d).length := by
    rw [List.length_append, length_fields]
  unfold name
  rw [hpos, List.drop_left, takeWhile_string h]

end

lemma bytes_append (a b : List UInt8) (item : Item) :
    a ++ item.bytes ++ b = a ++ fields item.type item.name.length item.data.length ++
      (item.name ++ 0 :: (item.pad.1 :: item.pad.2 :: (item.data ++ [item.tail]) ++ b)) := by
  simp only [Item.bytes, List.append_assoc, List.cons_append, List.nil_append]

lemma type_at (a b : List UInt8) (item : Item) :
    type (a ++ item.bytes ++ b) a.length = item.type := by
  rw [bytes_append, type_fields _ _ _ _ _ item.type_lt]

lemma nameSize_at (a b : List UInt8) (item : Item) :
    nameSize (a ++ item.bytes ++ b) a.length = item.name.length := by
  rw [bytes_append, nameSize_fields, Nat.mod_eq_of_lt item.name_lt]

lemma dataSize_at (a b : List UInt8) (item : Item) :
    dataSize (a ++ item.bytes ++ b) a.length = item.data.length := by
  rw [bytes_append, dataSize_fields, Nat.mod_eq_of_lt item.data_lt]

lemma name_at (a b : List UInt8) (item : Item) :
    name (a ++ item.bytes ++ b) a.length = item.name := by
  rw [bytes_append, name_fields _ _ _ _ _ item.name_null]

lemma getElem?_name_at (a b : List UInt8) (item : Item) :
    (a ++ item.bytes ++ b)[a.length + 8]? = item.name.head? := by
  have hlen : a.length + 8 = (a ++ fields item.type item.name.length item.data.length).length := by
    rw [List.length_append, length_fields]
  rw [bytes_append, hlen, List.getElem?_append_right (le_refl _), Nat.sub_self,
    List.getElem?_append_left item.name_pos, List.head?_eq_getElem?]

lemma data_at (a b : List UInt8) (item : Item) :
    data (a ++ item.bytes ++ b) a.length = a.length + 8 + item.name.length + 3 := by
  rw [data, nameSize_at]

lemma size_at (a b : List UInt8) (item : Item) :
    size (a ++ item.bytes ++ b) a.length = item.size := by
  rw [size, nameSize_at, dataSize_at, Item.size]

lemma next_at (a b : List UInt8) (item : Item) :
    next (a ++ item.bytes ++ b) a.length = (a ++ item.bytes).length := by
  rw [next, size_at, List.length_append, Item.length_bytes]

lemma isLast_at (a b : List UInt8) (item : Item) :
    isLast (a ++ item.bytes ++ b) a.length = false := by
  have hpos := item.name_pos
  unfold isLast
  rw [nameSize_at]
  simp only [List.length_append, Item.length_bytes, Item.size]
  apply decide_eq_false
  omega

lemma isLast_append (a rest : List UInt8) : isLast (a ++ rest) a.length = true ↔ Ended rest := by
  unfold isLast nameSize Ended
  rw [decide_eq_true_iff, ← List.drop_drop, List.drop_left, List.length_append,
    Nat.add_lt_add_iff_left]

lemma isLast_ended (a : List UInt8) (h : Ended rest) : isLast (a ++ rest) a.length = true :=
  (isLast_append a rest).2 h

/-! ## The loops over the items -/

variable {stop : ℕ → Bool} {p : Item → Bool}

lemma skip_layout
    (hstop : ∀ a item b, node = a ++ Item.bytes item ++ b → stop a.length = p item)
    (hended : Ended rest) (rounds : ℕ) (hnode : node = a ++ layout items ++ rest)
    (hrounds : items.length < rounds) :
    skip node stop rounds a.length = (a ++ layout (items.takeWhile fun item => !p item)).length := by
  induction items generalizing a rounds with
  | nil =>
    obtain ⟨rounds, rfl⟩ := Nat.exists_eq_succ_of_ne_zero (Nat.ne_of_gt hrounds)
    have hnode' : node = a ++ rest := by rw [hnode, layout_nil, List.append_nil]
    rw [skip, if_pos (Or.inl (by rw [hnode']; exact isLast_ended a hended))]
    rw [List.takeWhile_nil, layout_nil, List.append_nil]
  | cons item items ih =>
    obtain ⟨rounds, rfl⟩ := Nat.exists_eq_succ_of_ne_zero (Nat.ne_of_gt (Nat.zero_lt_of_lt hrounds))
    have hitem : node = a ++ item.bytes ++ (layout items ++ rest) := by
      rw [hnode, append_layout_cons]
    have hlast : isLast node a.length = false := by
      rw [hitem]
      exact isLast_at a _ item
    have hnext : next node a.length = (a ++ item.bytes).length := by
      rw [hitem]
      exact next_at a _ item
    rw [skip, hstop a item _ hitem, hlast, hnext]
    cases hp : p item with
    | true =>
      rw [if_pos (Or.inr rfl), List.takeWhile_cons_of_neg (by simp [hp]), layout_nil,
        List.append_nil]
    | false =>
      have hrest : node = (a ++ item.bytes) ++ layout items ++ rest := by
        rw [hnode, append_layout_tail]
      rw [if_neg (by simp), ih rounds hrest (by rw [List.length_cons] at hrounds; omega),
        List.takeWhile_cons_of_pos (by simp [hp]), layout_cons]
      simp only [List.append_assoc]

lemma rounds_le (hnode : node = a ++ layout items ++ rest) (ha : 0 < a.length) :
    items.length < node.length := by
  have hle := length_le_layout items
  rw [hnode, List.length_append, List.length_append]
  omega

lemma skip_of_none
    (hstop : ∀ a item b, node = a ++ Item.bytes item ++ b → stop a.length = p item)
    (hended : Ended rest) (hnode : node = a ++ layout items ++ rest) (ha : 0 < a.length)
    (hnone : ∀ item ∈ items, p item = false) :
    skip node stop node.length a.length = (a ++ layout items).length := by
  have hall : (items.takeWhile fun item => !p item) = items := by
    apply List.takeWhile_eq_self_iff.2
    intro item hitem
    rw [hnone item hitem]
    rfl
  rw [skip_layout hstop hended node.length hnode (rounds_le hnode ha), hall]

lemma skip_of_first
    (hstop : ∀ a item b, node = a ++ Item.bytes item ++ b → stop a.length = p item)
    (hended : Ended rest) (hnode : node = a ++ layout (pre ++ item :: post) ++ rest)
    (ha : 0 < a.length) (hpre : ∀ item ∈ pre, p item = false) (hitem : p item = true) :
    skip node stop node.length a.length = (a ++ layout pre).length := by
  have htake : ((pre ++ item :: post).takeWhile fun item => !p item) = pre := by
    rw [List.takeWhile_append_of_pos, List.takeWhile_cons_of_neg, List.append_nil]
    · rw [hitem]
      decide
    · intro other hother
      rw [hpre other hother]
      rfl
  rw [skip_layout hstop hended node.length hnode (rounds_le hnode ha), htake]

lemma last_eq (hnode : node = a ++ layout items ++ rest) (hended : Ended rest)
    (ha : 0 < a.length) : last node a.length = (a ++ layout items).length := by
  unfold last
  exact skip_of_none (p := fun _ => false) (fun _ _ _ _ => rfl) hended hnode ha fun _ _ => rfl

lemma name_stop (wanted : List UInt8) (a : List UInt8) (item : Item) (b : List UInt8)
    (hnode : node = a ++ item.bytes ++ b) :
    decide (name node a.length = wanted) = decide (item.name = wanted) := by
  rw [hnode, name_at]

lemma find_of_absent (hnode : node = header ++ layout items ++ rest)
    (hheader : header.length = start) (hended : Ended rest)
    (habsent : ∀ item ∈ items, item.name ≠ wanted) :
    find node wanted = (header ++ layout items).length := by
  unfold find
  rw [← hheader]
  exact skip_of_none (name_stop wanted) hended hnode (by rw [hheader]; decide)
    fun item hitem => decide_eq_false (habsent item hitem)

lemma find_of_first (hnode : node = header ++ layout (pre ++ item :: post) ++ rest)
    (hheader : header.length = start) (hended : Ended rest)
    (hpre : ∀ item ∈ pre, item.name ≠ wanted) (hname : item.name = wanted) :
    find node wanted = (header ++ layout pre).length := by
  unfold find
  rw [← hheader]
  exact skip_of_first (name_stop wanted) hended hnode (by rw [hheader]; decide)
    (fun item hitem => decide_eq_false (hpre item hitem)) (decide_eq_true hname)

end SmallData

lemma none_or_first {α : Type} (p : α → Prop) [DecidablePred p] (l : List α) :
    (∀ x ∈ l, ¬p x) ∨ ∃ pre x post, l = pre ++ x :: post ∧ p x ∧ ∀ y ∈ pre, ¬p y := by
  induction l with
  | nil => exact Or.inl fun _ h => absurd h List.not_mem_nil
  | cons x l ih =>
    by_cases hx : p x
    · exact Or.inr ⟨[], x, l, rfl, hx, fun _ h => absurd h List.not_mem_nil⟩
    · apply ih.imp
      · intro h
        exact List.forall_mem_cons.2 ⟨hx, h⟩
      · rintro ⟨pre, y, post, heq, hy, hpre⟩
        rw [heq]
        exact ⟨x :: pre, y, post, rfl, hy, List.forall_mem_cons.2 ⟨hx, hpre⟩⟩

end Haiku.Bfs
