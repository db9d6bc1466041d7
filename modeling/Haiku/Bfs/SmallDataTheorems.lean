import Haiku.Bfs.SmallDataItems

/-!
# Adding and removing items
-/

namespace Haiku.Bfs

open Haiku.Lib

variable {a header node rest wanted name data : List UInt8} {items pre post : List Item} {item : Item}
  {type pos : ℕ}

/-! ## Removing an item -/

lemma removeItem_eq (item : Item) (post : List Item) (ha : 0 < a.length) (hended : Ended rest) :
    ∃ rest', removeItem (a ++ item.bytes ++ layout post ++ rest) a.length =
        some (.ok, a ++ layout post ++ rest') ∧
      Ended rest' ∧ rest'.length = item.size + rest.length := by
  have hitem :
    a ++ item.bytes ++ layout post ++ rest = a ++ item.bytes ++ (layout post ++ rest) := by
    simp only [List.append_assoc]
  have hnext := SmallData.next_at a (layout post ++ rest) item
  rw [← hitem] at hnext
  unfold removeItem
  simp only [hnext]
  cases post with
  | nil =>
    have hlast := SmallData.isLast_ended (a ++ item.bytes) hended
    have hsize := SmallData.size_at a rest item
    rw [layout_nil, List.append_nil, hlast, if_pos rfl, hsize, ← Item.length_bytes,
      memset_append a item.bytes rest rfl rfl]
    refine ⟨List.replicate item.bytes.length 0 ++ rest, ?_, ?_, ?_⟩
    · simp only [Option.map_some, List.append_nil, List.append_assoc]
    · apply ended_zeros_append
      rw [Item.length_bytes, Item.size]
      omega
    · rw [List.length_append, List.length_replicate]
  | cons second post =>
    have hsecond : a ++ item.bytes ++ layout (second :: post) ++ rest =
        (a ++ item.bytes) ++ second.bytes ++ (layout post ++ rest) := by
      simp only [layout_cons, List.append_assoc]
    have hnotLast : SmallData.isLast (a ++ item.bytes ++ layout (second :: post) ++ rest)
        (a ++ item.bytes).length = false := by
      rw [hsecond]
      exact SmallData.isLast_at _ _ second
    have hlast : SmallData.last (a ++ item.bytes ++ layout (second :: post) ++ rest)
        (a ++ item.bytes).length = (a ++ item.bytes ++ layout (second :: post)).length :=
      SmallData.last_eq rfl hended (by rw [List.length_append]; omega)
    obtain ⟨moved, (hmove : memmove (a ++ item.bytes ++ layout (second :: post) ++ rest) a.length
        (a ++ item.bytes).length (layout (second :: post)).length = _), hmoved⟩ :=
      memmove_close a item.bytes (layout (second :: post)) rest rfl List.length_append rfl
    have hsize : (a ++ item.bytes ++ layout (second :: post)).length - (a ++ item.bytes).length =
        (layout (second :: post)).length := by
      simp only [List.length_append]
      omega
    have hend : (a ++ item.bytes ++ layout (second :: post)).length -
        ((a ++ item.bytes).length - a.length) = (a ++ layout (second :: post)).length := by
      simp only [List.length_append]
      omega
    have hin : ¬(a ++ item.bytes ++ layout (second :: post) ++ rest).length <
        (a ++ item.bytes).length + (layout (second :: post)).length := by
      simp only [List.length_append]
      omega
    refine ⟨List.replicate moved.length 0, ?_, ended_zeros _, ?_⟩
    · rw [hnotLast, if_neg Bool.false_ne_true, hlast, hsize, if_neg hin, hmove]
      simp only [Option.bind_eq_bind, Option.bind_some, hend, memset_rest]
    · rw [List.length_replicate, hmoved, Item.length_bytes]

/-! ## Replacing the data of an item -/

/-- Data with `data` written at `pos`; what was behind it is gone. -/
def written (old : List UInt8) (pos : ℕ) (data : List UInt8) : List UInt8 :=
  old.take pos ++ List.replicate (pos - old.length) 0 ++ data

lemma length_written (old : List UInt8) (pos : ℕ) (data : List UInt8) :
    (written old pos data).length = pos + data.length := by
  simp only [written, List.length_append, List.length_take, List.length_replicate]
  omega

/-- The item with `data` written at `pos` -/
def Item.write (item : Item) (type pos : ℕ) (data : List UInt8) (htype : type < 2 ^ 32)
    (hlen : pos + data.length < 2 ^ 16) : Item :=
  { item with
    type := type
    data := written item.data pos data
    tail := 0
    type_lt := htype
    data_lt := by rw [length_written]; exact hlen }

lemma take_bytes (item : Item) (pos : ℕ) {y : List UInt8} {size : ℕ}
    (htake : y.take item.size = item.bytes.take size) (hsize : 11 + item.name.length + pos ≤ size) :
    y = fields item.type item.name.length item.data.length ++
      (item.name ++ [0, item.pad.1, item.pad.2]) ++
      (item.data.take pos ++ y.drop (11 + item.name.length + (item.data.take pos).length)) := by
  have hbytes : item.bytes = fields item.type item.name.length item.data.length ++
      (item.name ++ [0, item.pad.1, item.pad.2]) ++ item.data.take pos ++
      (item.data.drop pos ++ [item.tail]) := by
    unfold Item.bytes
    rw [List.append_assoc _ (item.data.take pos), ← List.append_assoc (item.data.take pos),
      List.take_append_drop]
  have hlen : (fields item.type item.name.length item.data.length ++
      (item.name ++ [0, item.pad.1, item.pad.2]) ++ item.data.take pos).length =
        11 + item.name.length + (item.data.take pos).length := by
    simp only [List.length_append, length_fields, List.length_cons, List.length_nil]
    omega
  have hle : (item.data.take pos).length ≤ item.data.length := by
    rw [List.length_take]
    exact Nat.min_le_right _ _
  have hpos : (item.data.take pos).length ≤ pos := by
    rw [List.length_take]
    exact Nat.min_le_left _ _
  have hfront : y.take (11 + item.name.length + (item.data.take pos).length) =
      fields item.type item.name.length item.data.length ++
        (item.name ++ [0, item.pad.1, item.pad.2]) ++ item.data.take pos := by
    calc y.take (11 + item.name.length + (item.data.take pos).length)
        = (y.take item.size).take (11 + item.name.length + (item.data.take pos).length) := by
          rw [List.take_take, Nat.min_eq_left (by rw [Item.size]; omega)]
      _ = item.bytes.take (11 + item.name.length + (item.data.take pos).length) := by
          rw [htake, List.take_take, Nat.min_eq_left (by omega)]
      _ = _ := by rw [hbytes, ← hlen, List.take_left]
  rw [← List.append_assoc, ← hfront, List.take_append_drop]

lemma resizeItem_eq (item : Item) (post : List Item) {length : ℕ}
    (hfits : 12 + item.name.length + length ≤ item.size + rest.length)
    (hpos : pos ≤ length) :
    ∃ g rest', resizeItem (a ++ item.bytes ++ layout post ++ rest) a.length
          (a ++ item.bytes ++ layout post).length (12 + item.name.length + length) length =
        some (a ++ fields item.type item.name.length length ++
          (item.name ++ [0, item.pad.1, item.pad.2]) ++ (item.data.take pos ++ g) ++
          layout post ++ rest') ∧
      g.length + (item.data.take pos).length = length + 1 ∧ Ended rest' ∧
      12 + item.name.length + length + rest'.length = item.size + rest.length := by
  have hitem :
    a ++ item.bytes ++ layout post ++ rest = a ++ item.bytes ++ (layout post ++ rest) := by
    simp only [List.append_assoc]
  have hnext := SmallData.next_at a (layout post ++ rest) item
  rw [← hitem] at hnext
  have hbytes := item.length_bytes
  have hbehind : (a ++ item.bytes ++ layout post).length - (a ++ item.bytes).length =
      (layout post).length := by
    simp only [List.length_append]
    omega
  have hsize : 12 + item.name.length + length ≤ item.bytes.length + rest.length := by
    rw [hbytes]
    exact hfits
  obtain ⟨y, r, hmove, hy, htake, hr⟩ :=
    memmove_resize a item.bytes (layout post) rest hsize rfl List.length_append hbehind
  have hmoved :
    (if SmallData.isLast (a ++ item.bytes ++ layout post ++ rest) (a ++ item.bytes).length
        then some (a ++ item.bytes ++ layout post ++ rest)
        else memmove (a ++ item.bytes ++ layout post ++ rest)
          (a.length + (12 + item.name.length + length)) (a ++ item.bytes).length
          ((a ++ item.bytes ++ layout post).length - (a ++ item.bytes).length)) =
      some (a ++ y ++ layout post ++ r) := by
    rw [← hmove]
    cases post with
    | nil =>
      rw [layout_nil, List.append_nil, Nat.sub_self, memmove_zero, ite_self]
    | cons second post =>
      have hnotLast := SmallData.isLast_at (a ++ item.bytes) (layout post ++ rest) second
      have hsecond : (a ++ item.bytes) ++ second.bytes ++ (layout post ++ rest) =
          a ++ item.bytes ++ layout (second :: post) ++ rest := by
        simp only [layout_cons, List.append_assoc]
      rw [hsecond] at hnotLast
      rw [hnotLast, if_neg Bool.false_ne_true]
  have hlast : (a ++ item.bytes ++ layout post).length +
      (a.length + (12 + item.name.length + length)) - (a ++ item.bytes).length =
        (a ++ y ++ layout post).length := by
    simp only [List.length_append]
    omega
  have hended' : (if (a ++ y ++ layout post).length < (a ++ y ++ layout post ++ r).length
        then memset (a ++ y ++ layout post ++ r) (a ++ y ++ layout post).length 0
          ((a ++ y ++ layout post ++ r).length - (a ++ y ++ layout post).length)
        else some (a ++ y ++ layout post ++ r)) =
      some (a ++ y ++ layout post ++ List.replicate r.length 0) := by
    split_ifs with hlt
    · exact memset_rest _ r 0
    · -- no byte is left
      have hr : r = [] := by
        apply List.eq_nil_of_length_eq_zero
        simp only [List.length_append] at hlt
        omega
      rw [hr]
      rfl
  -- the part of the item that stays
  rw [hbytes] at htake hr
  have hkept := take_bytes item pos htake (by omega)
  have hsplit : a ++ y ++ layout post ++ List.replicate r.length 0 =
      (a ++ digits 4 item.type ++ digits 2 item.name.length) ++ digits 2 item.data.length ++
      ((item.name ++ [0, item.pad.1, item.pad.2]) ++ (item.data.take pos ++
        y.drop (11 + item.name.length + (item.data.take pos).length)) ++
      layout post ++ List.replicate r.length 0) := by
    nth_rewrite 1 [hkept]
    simp only [fields, List.append_assoc]
  refine ⟨y.drop (11 + item.name.length + (item.data.take pos).length),
    List.replicate r.length 0, ?_, ?_, ended_zeros _, ?_⟩
  · unfold resizeItem
    simp only [hnext]
    rw [hmoved, Option.bind_eq_bind, Option.bind_some, hlast, hended', Option.bind_some, hsplit,
      memcpy_append]
    · simp only [fields, List.append_assoc]
    · rw [length_digits, length_digits]
    · simp only [List.length_append, length_digits]
  · rw [List.length_drop, List.length_take]
    omega
  · rw [List.length_replicate]
    omega

lemma memcpy_type (a b : List UInt8) (old type n d : ℕ) :
    memcpy (a ++ fields old n d ++ b) a.length (digits 4 type) = some (a ++ fields type n d ++ b) := by
  have hsplit :
    a ++ fields old n d ++ b = a ++ digits 4 old ++ (digits 2 n ++ digits 2 d ++ b) := by
    simp only [fields, List.append_assoc]
  rw [hsplit, memcpy_append _ _ _ (by rw [length_digits, length_digits]) rfl]
  simp only [fields, List.append_assoc]

lemma exists_split (g : List UInt8) {i j k : ℕ} (h : g.length = i + j + k) :
    ∃ g₁ g₂ g₃, g = g₁ ++ g₂ ++ g₃ ∧ g₁.length = i ∧ g₂.length = j ∧ g₃.length = k := by
  refine ⟨g.take i, (g.drop i).take j, (g.drop i).drop j, ?_, ?_, ?_, ?_⟩
  · rw [List.append_assoc, List.take_append_drop, List.take_append_drop]
  · rw [List.length_take]
    omega
  · rw [List.length_take, List.length_drop]
    omega
  · rw [List.length_drop, List.length_drop]
    omega

lemma writeData_eq (a c : List UInt8) {named kept g : List UInt8} {n d old : ℕ}
    (hn : n < 2 ^ 16) (hnamed : named.length = n + 3) (hkept : kept.length = min pos old)
    (hg : g.length + min pos old = pos + data.length + 1) :
    writeData (a ++ fields type n d ++ named ++ (kept ++ g) ++ c) a.length old pos data =
      some (a ++ fields type n d ++ named ++
        (kept ++ List.replicate (pos - old) 0 ++ data ++ [0]) ++ c) := by
  have hdata : ∀ b, SmallData.data (a ++ fields type n d ++ named ++ b) a.length =
      a.length + 8 + n + 3 := by
    intro b
    rw [List.append_assoc _ named, SmallData.data, SmallData.nameSize_fields,
      Nat.mod_eq_of_lt hn]
  have hpos : (a ++ fields type n d ++ named).length = a.length + 8 + n + 3 := by
    simp only [List.length_append, length_fields]
    omega
  -- the gap, what is written, and the byte behind it
  obtain ⟨g₁, g₂, g₃, hsplit, hg₁, hg₂, hg₃⟩ := exists_split g (i := pos - old) (j := data.length)
    (k := 1) (by omega)
  have hnode : a ++ fields type n d ++ named ++ (kept ++ g) ++ c =
      a ++ fields type n d ++ named ++ (kept ++ g₁ ++ g₂ ++ g₃ ++ c) := by
    rw [hsplit]
    simp only [List.append_assoc]
  have hfill :
    (if old < pos then memset (a ++ fields type n d ++ named ++ (kept ++ g₁ ++ g₂ ++ g₃ ++ c))
        (a.length + 8 + n + 3 + old) 0 (pos - old)
        else some (a ++ fields type n d ++ named ++ (kept ++ g₁ ++ g₂ ++ g₃ ++ c))) =
      some (a ++ fields type n d ++ named ++
        (kept ++ List.replicate (pos - old) 0 ++ g₂ ++ g₃ ++ c)) := by
    split_ifs with hlt
    · have hset : memset ((a ++ fields type n d ++ named ++ kept) ++ g₁ ++ (g₂ ++ g₃ ++ c))
          (a.length + 8 + n + 3 + old) 0 (pos - old) = _ :=
        memset_append _ g₁ _ hg₁.symm (by
          rw [List.length_append, hpos, hkept, Nat.min_eq_right (Nat.le_of_lt hlt)])
      simp only [List.append_assoc] at hset ⊢
      exact hset
    · have hnone : pos - old = 0 := by omega
      rw [hnone] at hg₁ ⊢
      rw [List.eq_nil_of_length_eq_zero hg₁, List.replicate_zero]
  have hwrite : memcpy ((a ++ fields type n d ++ named ++ kept ++ List.replicate (pos - old) 0) ++
      g₂ ++ (g₃ ++ c)) (a.length + 8 + n + 3 + pos) data = _ :=
    memcpy_append _ g₂ _ hg₂.symm (by
      rw [List.length_append, List.length_append, hpos, hkept, List.length_replicate]
      omega)
  have hnull : memcpy ((a ++ fields type n d ++ named ++ kept ++ List.replicate (pos - old) 0 ++
      data) ++ g₃ ++ c) (a.length + 8 + n + 3 + pos + data.length) [0] = _ :=
    memcpy_append _ g₃ _ hg₃.symm (by
      rw [List.length_append, List.length_append, List.length_append, hpos, hkept,
        List.length_replicate]
      omega)
  unfold writeData
  rw [hnode, hdata, hfill, Option.bind_eq_bind, Option.bind_some, hdata]
  simp only [List.append_assoc] at hwrite hnull hdata ⊢
  rw [hwrite, Option.bind_some, hdata, hnull]

lemma replaceItem_eq (item : Item) (post : List Item) (hended : Ended rest)
    (htype : type < 2 ^ 32) (hlen : pos + data.length < 2 ^ 16)
    (hfits : 12 + item.name.length + (pos + data.length) ≤ item.size + rest.length) :
    ∃ rest', replaceItem (a ++ item.bytes ++ layout post ++ rest) a.length
          (a ++ item.bytes ++ layout post).length (12 + item.name.length + (pos + data.length))
          type pos data =
        some (a ++ (item.write type pos data htype hlen).bytes ++ layout post ++ rest') ∧
      Ended rest' ∧
      12 + item.name.length + (pos + data.length) + rest'.length = item.size + rest.length := by
  have hitem :
    a ++ item.bytes ++ layout post ++ rest = a ++ item.bytes ++ (layout post ++ rest) := by
    simp only [List.append_assoc]
  have holdSize : SmallData.dataSize (a ++ item.bytes ++ layout post ++ rest) a.length =
      item.data.length := by
    rw [hitem]
    exact SmallData.dataSize_at _ _ item
  have hresized : ∃ g rest', (if pos + data.length = item.data.length
        then some (a ++ item.bytes ++ layout post ++ rest)
        else resizeItem (a ++ item.bytes ++ layout post ++ rest) a.length
          (a ++ item.bytes ++ layout post).length (12 + item.name.length + (pos + data.length))
          (pos + data.length)) =
        some (a ++ fields item.type item.name.length (pos + data.length) ++
          (item.name ++ [0, item.pad.1, item.pad.2]) ++ (item.data.take pos ++ g) ++
          layout post ++ rest') ∧
      g.length + (item.data.take pos).length = pos + data.length + 1 ∧ Ended rest' ∧
      12 + item.name.length + (pos + data.length) + rest'.length = item.size + rest.length := by
    split_ifs with hsame
    · refine ⟨item.data.drop pos ++ [item.tail], rest, ?_, ?_, hended, ?_⟩
      · rw [Item.bytes, hsame, ← List.append_assoc (item.data.take pos), List.take_append_drop]
        simp only [List.append_assoc]
      · simp only [List.length_append, List.length_drop, List.length_take, List.length_cons,
          List.length_nil]
        omega
      · rw [Item.size]
        omega
    · exact resizeItem_eq item post hfits (by omega)
  obtain ⟨g, rest', hresize, hg, hended', hrest'⟩ := hresized
  rw [List.length_take] at hg
  refine ⟨rest', ?_, hended', hrest'⟩
  have htyped := memcpy_type a ((item.name ++ [0, item.pad.1, item.pad.2]) ++
    (item.data.take pos ++ g) ++ layout post ++ rest') item.type type item.name.length
    (pos + data.length)
  have hwrite : writeData (a ++ fields type item.name.length (pos + data.length) ++
      (item.name ++ [0, item.pad.1, item.pad.2]) ++ (item.data.take pos ++ g) ++
      (layout post ++ rest')) a.length item.data.length pos data = _ :=
    writeData_eq a _ item.name_lt List.length_append List.length_take hg
  have hbytes : (item.write type pos data htype hlen).bytes =
      fields type item.name.length (pos + data.length) ++ (item.name ++ [0, item.pad.1, item.pad.2]) ++
        (item.data.take pos ++ List.replicate (pos - item.data.length) 0 ++ data ++ [0]) := by
    show fields type item.name.length (written item.data pos data).length ++ _ ++ _ = _
    rw [length_written]
    rfl
  unfold replaceItem
  simp only [holdSize]
  rw [hresize, Option.bind_eq_bind, Option.bind_some, hbytes]
  simp only [List.append_assoc] at htyped hwrite ⊢
  rw [htyped, Option.bind_some, hwrite]

/-! ## A new item -/

lemma writeItem_eq (a c : List UInt8) (type : ℕ) (pos : ℕ) {k : ℕ} (hn : name.length < 2 ^ 16)
    (hk : k = 12 + name.length + (pos + data.length)) :
    writeItem (a ++ (List.replicate k 0 ++ c)) a.length name type pos data =
      some (a ++ fields type name.length data.length ++ (name ++ [0, 0, 0]) ++
        (List.replicate pos 0 ++ data ++ [0]) ++ c) := by
  have htype : memcpy (a ++ (List.replicate k 0 ++ c)) a.length (digits 4 type) = _ :=
    memcpy_filled a c (digits 4 type) 0 0 (by rw [length_digits]; omega) rfl
  have hname : memcpy (a ++ digits 4 type ++ (List.replicate (k - 4) 0 ++ c)) (a.length + 4)
      (digits 2 name.length) = _ :=
    memcpy_filled _ c _ 0 0 (by rw [length_digits]; omega)
      (by rw [List.length_append, length_digits])
  have hdata : memcpy (a ++ digits 4 type ++ digits 2 name.length ++
      (List.replicate (k - 6) 0 ++ c)) (a.length + 6) (digits 2 data.length) = _ :=
    memcpy_filled _ c _ 0 0 (by rw [length_digits]; omega)
      (by simp only [List.length_append, length_digits])
  have hstring : memcpy (a ++ fields type name.length data.length ++
      (List.replicate (k - 8) 0 ++ c)) (a.length + 8) (name ++ [0]) = _ :=
    memcpy_filled _ c _ 0 0 (by rw [List.length_append, List.length_singleton]; omega)
      (by simp only [List.length_append, length_fields])
  have hwrite : memcpy (a ++ fields type name.length data.length ++ (name ++ [0]) ++
      (List.replicate (k - (9 + name.length)) 0 ++ c)) (a.length + 8 + name.length + 3 + pos) data = _ :=
    memcpy_filled _ c _ 0 (2 + pos) (by omega) (by
      simp only [List.length_append, length_fields, List.length_singleton]
      omega)
  have hpos : ∀ b, SmallData.data (a ++ fields type name.length data.length ++ b) a.length =
      a.length + 8 + name.length + 3 := by
    intro b
    rw [SmallData.data, SmallData.nameSize_fields, Nat.mod_eq_of_lt hn]
  have hbehind : k - (9 + name.length + (2 + pos + data.length)) = 1 := by omega
  simp only [length_digits, List.replicate_zero, List.append_nil, Nat.zero_add, Nat.sub_sub,
    Nat.reduceAdd, List.length_append, List.length_singleton] at htype hname hdata hstring hwrite
  have hfields : a ++ digits 4 type ++ digits 2 name.length ++ digits 2 data.length =
      a ++ fields type name.length data.length := by
    simp only [fields, List.append_assoc]
  have hstring' : 8 + (name.length + 1) = 9 + name.length := by omega
  rw [hfields] at hdata
  rw [hstring'] at hstring
  rw [hbehind] at hwrite
  unfold writeItem
  rw [htype, Option.bind_eq_bind, Option.bind_some, hname, Option.bind_some, hdata,
    Option.bind_some, hstring, Option.bind_some, List.append_assoc _ (name ++ [0]), hpos,
    ← List.append_assoc, hwrite]
  simp only [List.replicate_add, List.append_assoc]
  rfl

lemma appendItem_eq (a rest data : List UInt8) (pos : ℕ) (htype : type < 2 ^ 32) (hname : name ≠ [])
    (hnull : 0 ∉ name) (hlen : 12 + name.length + (pos + data.length) ≤ rest.length)
    (hrest : rest.length < 2 ^ 16) :
    ∃ item rest', appendItem (a ++ rest) a.length (12 + name.length + (pos + data.length)) name type
          pos data = some (a ++ Item.bytes item ++ rest') ∧
      Ended rest' ∧ item.size + rest'.length = rest.length ∧ item.type = type ∧ item.name = name ∧
      item.data = (List.replicate pos 0 ++ data).take data.length ∧ (pos = 0 → item.tail = 0) := by
  set k := 12 + name.length + (pos + data.length) with hk
  have hset := memset_next a rest (0 : UInt8) hlen
  have hwrite := writeItem_eq a (rest.drop k) type pos (by omega) hk
  -- the data of the item ends after `data.length` bytes, whatever `pos` is
  obtain ⟨u, v, w, hsplit, hu, hv, hw⟩ := exists_split (List.replicate pos 0 ++ data ++ [0])
    (i := data.length) (j := 1) (k := pos) (by
      simp only [List.length_append, List.length_replicate, List.length_singleton]
      omega)
  obtain ⟨tail, htail⟩ := List.length_eq_one_iff.1 hv
  subst htail
  let item : Item :=
    { type := type, name := name, pad := (0, 0), data := u, tail := tail, type_lt := htype
      name_ne := hname, name_null := hnull, name_lt := by omega, data_lt := by omega }
  have hnode : a ++ fields type name.length data.length ++ (name ++ [0, 0, 0]) ++
      (List.replicate pos 0 ++ data ++ [0]) ++ rest.drop k = a ++ item.bytes ++ (w ++ rest.drop k) := by
    have hbytes : item.bytes =
        fields type name.length u.length ++ (name ++ [0, 0, 0]) ++ (u ++ [tail]) := rfl
    rw [hsplit, hbytes, hu]
    simp only [List.append_assoc]
  have hdata : u = (List.replicate pos 0 ++ data).take data.length := by
    have htake : (List.replicate pos 0 ++ data ++ [0]).take data.length = u := by
      rw [hsplit, List.append_assoc, List.take_append_of_le_length (by omega), ← hu,
        List.take_length]
    rw [← htake, List.take_append_of_le_length]
    simp only [List.length_append, List.length_replicate]
    omega
  have hzero : pos = 0 → tail = 0 := by
    intro hpos
    rw [hpos] at hw
    rw [hpos, List.replicate_zero, List.nil_append, List.eq_nil_of_length_eq_zero hw,
      List.append_nil] at hsplit
    obtain ⟨_, hlast⟩ := List.append_inj' hsplit rfl
    exact (List.singleton_inj.1 hlast).symm
  have hsize : item.size + (w ++ rest.drop k).length = rest.length := by
    have hitem : item.size = 8 + name.length + 3 + u.length + 1 := rfl
    rw [hitem, List.length_append, List.length_drop]
    omega
  unfold appendItem
  rw [hset, Option.bind_eq_bind, Option.bind_some, hwrite, Option.bind_some, hnode]
  simp only [SmallData.next_at]
  cases hlast :
    SmallData.isLast (a ++ item.bytes ++ (w ++ rest.drop k)) (a ++ item.bytes).length with
  | true =>
    refine ⟨item, w ++ rest.drop k, rfl, (SmallData.isLast_append _ _).1 hlast, hsize, rfl, rfl,
      hdata, hzero⟩
  | false =>
    refine ⟨item, List.replicate (w ++ rest.drop k).length 0, memset_rest _ _ 0, ended_zeros _, ?_,
      rfl, rfl, hdata, hzero⟩
    rw [List.length_replicate]
    exact hsize

/-! ## Making space -/

/-- The items that are never removed to make space for `wanted` -/
def Item.IsProtected (item : Item) (wanted : List UInt8) : Prop :=
  item.name.head? = some fileNameName ∨ item.name = wanted

instance (item : Item) (wanted : List UInt8) : Decidable (item.IsProtected wanted) :=
  inferInstanceAs (Decidable (_ ∨ _))

/-- An item that may be removed, and is large enough to give `bytes` bytes -/
def Item.IsLarge (item : Item) (wanted : List UInt8) (bytes : ℤ) : Prop :=
  ¬item.IsProtected wanted ∧ bytes < item.size

instance (item : Item) (wanted : List UInt8) (bytes : ℤ) : Decidable (item.IsLarge wanted bytes) :=
  inferInstanceAs (Decidable (_ ∧ _))

lemma isProtected_at (a b : List UInt8) (item : Item) :
    isProtected (a ++ item.bytes ++ b) wanted a.length = decide (item.IsProtected wanted) := by
  unfold isProtected
  rw [SmallData.getElem?_name_at, SmallData.name_at]
  rfl

section

variable {bytes : ℤ} {rounds : ℕ} {max : Option ℕ}

lemma findLarge_cons (rounds : ℕ) (item : Item) (b : List UInt8)
    (hnode : node = a ++ item.bytes ++ b) :
    findLarge node wanted bytes (rounds + 1) a.length max =
      if item.IsProtected wanted
      then findLarge node wanted bytes rounds (a ++ item.bytes).length max
      else if bytes < item.size
        then (a.length, if max.all (SmallData.size node · < item.size) then some a.length else max)
        else findLarge node wanted bytes rounds (a ++ item.bytes).length
          (if max.all (SmallData.size node · < item.size) then some a.length else max) := by
  have hlast : SmallData.isLast node a.length = false := by rw [hnode, SmallData.isLast_at]
  have hprotected : isProtected node wanted a.length = decide (item.IsProtected wanted) := by
    rw [hnode, isProtected_at]
  have hsize : SmallData.size node a.length = item.size := by rw [hnode, SmallData.size_at]
  have hnext : SmallData.next node a.length = (a ++ item.bytes).length := by
    rw [hnode, SmallData.next_at]
  rw [findLarge, hlast, if_neg Bool.false_ne_true, hprotected, hsize, hnext]
  simp only [decide_eq_true_eq]

lemma findLarge_of_not (rounds : ℕ) (item : Item) (b : List UInt8)
    (hnode : node = a ++ item.bytes ++ b)
    (hmax : ∀ m ∈ max, (SmallData.size node m : ℤ) ≤ bytes) (hitem : ¬item.IsLarge wanted bytes) :
    ∃ max' : Option ℕ, (∀ m ∈ max', (SmallData.size node m : ℤ) ≤ bytes) ∧
      findLarge node wanted bytes (rounds + 1) a.length max =
        findLarge node wanted bytes rounds (a ++ item.bytes).length max' := by
  rw [findLarge_cons rounds item b hnode]
  by_cases hprotected : item.IsProtected wanted
  · rw [if_pos hprotected]
    exact ⟨max, hmax, rfl⟩
  · have hsize : ¬bytes < item.size := fun hlt => hitem ⟨hprotected, hlt⟩
    rw [if_neg hprotected, if_neg hsize]
    refine ⟨_, ?_, rfl⟩
    intro m hm
    split_ifs at hm
    · rw [← Option.mem_some.1 hm, hnode, SmallData.size_at]
      omega
    · exact hmax m hm

lemma findLarge_of_first (item : Item) (post : List Item)
    (hnode : node = a ++ layout (pre ++ item :: post) ++ rest) (hrounds : pre.length < rounds)
    (hmax : ∀ m ∈ max, (SmallData.size node m : ℤ) ≤ bytes) (hitem : item.IsLarge wanted bytes)
    (hpre : ∀ item ∈ pre, ¬item.IsLarge wanted bytes) :
    findLarge node wanted bytes rounds a.length max =
      ((a ++ layout pre).length, some (a ++ layout pre).length) := by
  obtain ⟨rounds', hrounds'⟩ := Nat.exists_eq_succ_of_ne_zero
    (Nat.ne_of_gt (Nat.zero_lt_of_lt hrounds))
  induction pre generalizing a rounds rounds' max with
  | nil =>
    have hnode' : node = a ++ item.bytes ++ (layout post ++ rest) := by
      rw [hnode, List.nil_append, append_layout_cons]
    have hlargest : max.all (SmallData.size node · < item.size) = true := by
      apply (Option.all_eq_true _ _).2
      intro m hm
      have hle := hmax m hm
      have hlt := hitem.2
      apply decide_eq_true
      omega
    rw [hrounds', findLarge_cons rounds' item _ hnode', if_neg hitem.1, if_pos hitem.2, if_pos hlargest,
      layout_nil, List.append_nil]
  | cons first pre ih =>
    have hnode' : node = a ++ first.bytes ++ (layout (pre ++ item :: post) ++ rest) := by
      rw [hnode, List.cons_append, append_layout_cons]
    have hnext : node = (a ++ first.bytes) ++ layout (pre ++ item :: post) ++ rest := by
      rw [hnode, List.cons_append, append_layout_tail]
    have hlt : pre.length < rounds' := by
      rw [List.length_cons] at hrounds
      omega
    obtain ⟨rounds'', hrounds''⟩ := Nat.exists_eq_succ_of_ne_zero
      (Nat.ne_of_gt (Nat.zero_lt_of_lt hlt))
    obtain ⟨hfirst, hrest⟩ := List.forall_mem_cons.1 hpre
    obtain ⟨max', hmax', hpass⟩ := findLarge_of_not rounds' first _ hnode' hmax hfirst
    rw [hrounds', hpass, ih hnext hlt hmax' hrest rounds'' hrounds'', layout_cons, List.append_assoc]

lemma findLarge_of_none (hended : Ended rest) (hnode : node = a ++ layout items ++ rest)
    (hrounds : items.length < rounds) (hmax : ∀ m ∈ max, (SmallData.size node m : ℤ) ≤ bytes)
    (hitems : ∀ item ∈ items, ¬item.IsLarge wanted bytes) :
    (findLarge node wanted bytes rounds a.length max).1 = (a ++ layout items).length := by
  obtain ⟨rounds', hrounds'⟩ := Nat.exists_eq_succ_of_ne_zero
    (Nat.ne_of_gt (Nat.zero_lt_of_lt hrounds))
  induction items generalizing a rounds rounds' max with
  | nil =>
    rw [layout_nil, List.append_nil] at hnode ⊢
    rw [hrounds', findLarge, hnode, SmallData.isLast_ended a hended, if_pos rfl]
  | cons first items ih =>
    have hnode' : node = a ++ first.bytes ++ (layout items ++ rest) := by
      rw [hnode, append_layout_cons]
    have hnext : node = (a ++ first.bytes) ++ layout items ++ rest := by
      rw [hnode, append_layout_tail]
    have hlt : items.length < rounds' := by
      rw [List.length_cons] at hrounds
      omega
    obtain ⟨rounds'', hrounds''⟩ := Nat.exists_eq_succ_of_ne_zero
      (Nat.ne_of_gt (Nat.zero_lt_of_lt hlt))
    obtain ⟨hfirst, hrest⟩ := List.forall_mem_cons.1 hitems
    obtain ⟨max', hmax', hpass⟩ := findLarge_of_not rounds' first _ hnode' hmax hfirst
    rw [hrounds', hpass, ih hnext hlt hmax' hrest rounds'' hrounds'', layout_cons, List.append_assoc]

/-- What is taken out of the section to make space: the first item that is large enough. -/
structure Evicts (items : List Item) (wanted : List UInt8) (bytes : ℤ) (moved : Item)
    (kept : List Item) : Prop where
  large : moved.IsLarge wanted bytes
  split : ∃ pre post, items = pre ++ moved :: post ∧ kept = pre ++ post ∧
    ∀ item ∈ pre, ¬item.IsLarge wanted bytes

lemma slice_data_at (a b : List UInt8) (item : Item) :
    slice (a ++ item.bytes ++ b) (SmallData.data (a ++ item.bytes ++ b) a.length)
      (SmallData.dataSize (a ++ item.bytes ++ b) a.length) = some item.data := by
  have hsplit : a ++ item.bytes ++ b = (a ++ fields item.type item.name.length item.data.length ++
      (item.name ++ [0, item.pad.1, item.pad.2])) ++ item.data ++ ([item.tail] ++ b) := by
    simp only [Item.bytes, List.append_assoc]
  rw [SmallData.data_at, SmallData.dataSize_at, hsplit, slice_append]
  · simp only [List.length_append, length_fields, List.length_cons, List.length_nil]
    omega
  · rfl

lemma makeSpace_of_none (io : AttributeIo) (inode : Inode) (rounds : ℕ)
    (hheader : header.length = SmallData.start) (hended : Ended rest)
    (hnode : inode.node = header ++ layout items ++ rest) (hbytes : 0 < bytes)
    (hnone : ∀ item ∈ items, ¬item.IsLarge wanted bytes) :
    inode.makeSpace io wanted (rounds + 1) bytes = some (.error, inode) := by
  have hrounds := SmallData.rounds_le hnode (by rw [hheader]; decide)
  have hfind : (findLarge inode.node wanted bytes inode.node.length header.length none).1 = _ :=
    findLarge_of_none hended hnode hrounds (by simp) hnone
  have hlast : SmallData.isLast inode.node (header ++ layout items).length = true := by
    rw [hnode]
    exact SmallData.isLast_ended _ hended
  rw [hheader] at hfind
  rw [Inode.makeSpace, if_neg (by omega)]
  simp only
  rw [hfind, hlast, if_pos (Or.inl rfl)]

lemma makeSpace_of_first (io : AttributeIo) (inode : Inode) (rounds : ℕ) (moved : Item)
    (post : List Item) (hheader : header.length = SmallData.start) (hended : Ended rest)
    (hnode : inode.node = header ++ layout (pre ++ moved :: post) ++ rest) (hbytes : 0 < bytes)
    (hlarge : moved.IsLarge wanted bytes) (hpre : ∀ item ∈ pre, ¬item.IsLarge wanted bytes) :
    (∃ files, inode.makeSpace io wanted (rounds + 2) bytes = some (.error, { inode with files })) ∨
    ∃ rest', inode.makeSpace io wanted (rounds + 2) bytes =
        some (.ok, {
          node := header ++ layout (pre ++ post) ++ rest'
          files := Function.update inode.files moved.name
            (some (((inode.files moved.name).getD ⟨moved.type, []⟩).writeAt 0 moved.data)) }) ∧
      Ended rest' ∧ rest'.length = moved.size + rest.length := by
  have hpos : 0 < header.length := by
    rw [hheader]
    decide
  have hrounds := SmallData.rounds_le hnode hpos
  have hfind : findLarge inode.node wanted bytes inode.node.length header.length none = _ :=
    findLarge_of_first moved post hnode (by rw [List.length_append] at hrounds; omega) (by simp)
      hlarge hpre
  have hsplit : inode.node = (header ++ layout pre) ++ moved.bytes ++ (layout post ++ rest) := by
    rw [hnode, layout_append, ← append_layout_cons]
    simp only [List.append_assoc]
  obtain ⟨rest', hremove, hended', hrest'⟩ := removeItem_eq (a := header ++ layout pre) moved post
    (by rw [List.length_append]; omega) hended
  have hlast := SmallData.isLast_at (header ++ layout pre) (layout post ++ rest) moved
  have hsize := SmallData.size_at (header ++ layout pre) (layout post ++ rest) moved
  have hname := SmallData.name_at (header ++ layout pre) (layout post ++ rest) moved
  have htype := SmallData.type_at (header ++ layout pre) (layout post ++ rest) moved
  have hdata := slice_data_at (header ++ layout pre) (layout post ++ rest) moved
  rw [List.append_assoc _ (layout post)] at hremove
  rw [← hsplit] at hlast hsize hname htype hdata hremove
  rw [hheader] at hfind
  have hlarge' := hlarge.2
  have hwrite : 0 + moved.data.length < 2 ^ 63 := by
    have := moved.data_lt
    omega
  rw [Inode.makeSpace, if_neg (by omega)]
  simp only
  rw [hfind, hlast, hsize, if_neg (by simp; omega)]
  simp only [Option.bind_eq_bind, Option.bind_some, hsize, hname, htype]
  by_cases hcreate : io.create moved.name
  · by_cases hio : io.write moved.name
    · right
      refine ⟨rest', ?_, hended', hrest'⟩
      simp only [Inode.createAttribute, hcreate, if_true, hdata, Inode.writeFile, hio, hwrite,
        and_self, Option.bind_some, hremove, Function.update_idem]
      rw [Inode.makeSpace, if_pos (by omega), layout_append, ← List.append_assoc]
    · left
      rw [Bool.not_eq_true] at hio
      simp only [Inode.createAttribute, hcreate, if_true, hdata, Inode.writeFile, hio,
        Bool.false_eq_true, false_and, if_false, Option.bind_some, Inode.removeFile]
      by_cases hremoved : io.remove wanted
      · rw [if_pos hremoved]
        exact ⟨_, rfl⟩
      · rw [if_neg hremoved]
        exact ⟨_, rfl⟩
  · left
    rw [Inode.createAttribute, if_neg hcreate]
    exact ⟨inode.files, rfl⟩

end

end Haiku.Bfs
