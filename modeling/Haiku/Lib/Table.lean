import Mathlib.Data.List.AList
import Mathlib.Algebra.BigOperators.Group.List.Basic
import Mathlib.Algebra.Order.Ring.Int

/-!
# Tables

A table is a finite map, an `AList` whose values all have one type. `total` sums a number over
its entries; `total_insert` and `total_erase` say how the sum changes with an entry.
-/

namespace Haiku.Lib

abbrev Table (α β : Type) := AList fun _ : α => β

namespace Table

variable {α β : Type} [DecidableEq α]

def filter (p : α → β → Bool) (t : Table α β) : Table α β where
  entries := t.entries.filter fun e => p e.1 e.2
  nodupKeys := t.nodupKeys.sublist List.filter_sublist

def mapValues (f : β → β) (t : Table α β) : Table α β where
  entries := t.entries.map fun e => ⟨e.1, f e.2⟩
  nodupKeys := by
    have hkeys : (t.entries.map fun e => (⟨e.1, f e.2⟩ : Sigma fun _ : α => β)).keys =
        t.entries.keys := by
      simp [List.keys, Function.comp_def]
    rw [List.NodupKeys, hkeys]
    exact t.nodupKeys

def total (f : α → β → ℤ) (t : Table α β) : ℤ := (t.entries.map fun e => f e.1 e.2).sum

/-- The number that belongs to a key, 0 if it is not in the table. -/
def part (f : α → β → ℤ) (t : Table α β) (a : α) : ℤ := (t.lookup a).elim 0 (f a)

omit [DecidableEq α] in
@[simp] lemma total_empty (f : α → β → ℤ) : total f (∅ : Table α β) = 0 := rfl

lemma total_eq_part_add (f : α → β → ℤ) (t : Table α β) (a : α) :
    total f t = part f t a + total f (t.erase a) := by
  by_cases ha : a ∈ t
  · obtain ⟨b, l₁, l₂, hnot, hl, herase⟩ := List.exists_of_kerase (AList.mem_keys.1 ha)
    have hlookup : t.lookup a = some b := by
      rw [← Option.mem_def, AList.mem_lookup_iff, hl]
      simp
    have herase' : (t.erase a).entries = l₁ ++ l₂ := herase
    simp only [total, part, hlookup, herase', hl, Option.elim_some, List.map_append, List.map_cons,
      List.sum_append, List.sum_cons]
    omega
  · have hlookup : t.lookup a = none := AList.lookup_eq_none.2 ha
    have herase : (t.erase a).entries = t.entries :=
      List.kerase_of_notMem_keys (fun h => ha (AList.mem_keys.2 h))
    simp [total, part, hlookup, herase]

lemma total_erase (f : α → β → ℤ) (t : Table α β) (a : α) :
    total f (t.erase a) = total f t - part f t a := by
  rw [total_eq_part_add f t a]
  omega

lemma total_insert (f : α → β → ℤ) (t : Table α β) (a : α) (b : β) :
    total f (t.insert a b) = total f t - part f t a + f a b := by
  have h : total f (t.insert a b) = f a b + total f (t.erase a) := by
    rw [total, AList.entries_insert, List.map_cons, List.sum_cons]
    rfl
  rw [h, total_erase]
  omega

variable {t : Table α β} {a : α} {b : β}

lemma lookup_filter {p : α → β → Bool} (h : t.lookup a = some b) (hp : p a b = true) :
    (t.filter p).lookup a = some b := by
  rw [← Option.mem_def, AList.mem_lookup_iff] at h ⊢
  exact List.mem_filter.2 ⟨h, hp⟩

lemma lookup_mapValues (f : β → β) (t : Table α β) (a : α) :
    (t.mapValues f).lookup a = (t.lookup a).map f := by
  show List.dlookup a (t.entries.map fun e => (⟨e.1, f e.2⟩ : Sigma fun _ : α => β)) =
    (List.dlookup a t.entries).map f
  induction t.entries with
  | nil => rfl
  | cons e l ih =>
    by_cases he : a = e.1
    · subst he
      rw [List.map_cons, List.dlookup_cons_eq, List.dlookup_cons_eq, Option.map_some]
    · have hhead := List.dlookup_cons_ne (l.map fun e => (⟨e.1, f e.2⟩ : Sigma fun _ : α => β))
        ⟨e.1, f e.2⟩ he
      rw [List.map_cons, hhead, List.dlookup_cons_ne _ e he]
      exact ih

omit [DecidableEq α] in
lemma total_mapValues (f : α → β → ℤ) (g : β → β) (t : Table α β) :
    total f (mapValues g t) = total (fun a b => f a (g b)) t := by
  simp [total, mapValues, Function.comp_def]

lemma part_of_lookup {f : α → β → ℤ} (h : t.lookup a = some b) : part f t a = f a b := by
  rw [part, h, Option.elim_some]

lemma part_of_none {f : α → β → ℤ} (h : t.lookup a = none) : part f t a = 0 := by
  rw [part, h, Option.elim_none]

lemma lookup_insert_of_ne {a' : α} (h : a ≠ a') :
    (t.insert a' b).lookup a = t.lookup a := AList.lookup_insert_ne h

lemma lookup_insert_cases {k : α} {v : β} (h : (t.insert a b).lookup k = some v) :
    k = a ∧ v = b ∨ k ≠ a ∧ t.lookup k = some v := by
  by_cases hka : k = a
  · subst hka
    rw [AList.lookup_insert] at h
    exact Or.inl ⟨rfl, (Option.some.inj h).symm⟩
  · rw [lookup_insert_of_ne hka] at h
    exact Or.inr ⟨hka, h⟩

lemma lookup_of_erase {k : α} {v : β} (h : (t.erase a).lookup k = some v) :
    k ≠ a ∧ t.lookup k = some v := by
  by_cases hka : k = a
  · subst hka
    rw [AList.lookup_erase] at h
    cases h
  · rw [AList.lookup_erase_ne hka] at h
    exact ⟨hka, h⟩

lemma forall_lookup_insert {P : α → β → Prop} (h : ∀ k v, t.lookup k = some v → P k v)
    (hab : P a b) : ∀ k v, (t.insert a b).lookup k = some v → P k v := by
  intro k v hk
  rcases lookup_insert_cases hk with ⟨rfl, rfl⟩ | ⟨-, hk⟩
  · exact hab
  · exact h k v hk

lemma forall_lookup_erase {P : α → β → Prop} (h : ∀ k v, t.lookup k = some v → P k v) :
    ∀ k v, (t.erase a).lookup k = some v → P k v :=
  fun k v hk => h k v (lookup_of_erase hk).2

end Table

end Haiku.Lib
