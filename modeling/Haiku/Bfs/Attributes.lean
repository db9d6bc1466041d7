import Haiku.Bfs.SmallDataCalls

/-!
# Attributes

`Inode::ReadAttribute()`, `Inode::WriteAttribute()` and `Inode::Name()` of
`src/add-ons/kernel/file_systems/bfs/Inode.cpp`. An attribute lies in the small_data section, or in a
file of the attribute directory.

* The index, live queries and the flag for a created attribute are left out, and the status change
  time.
* `attributeOf`: what an inode says about its attributes, wherever they are.
-/

namespace Haiku.Bfs

open Haiku.Lib

/-- What `Name()` looks for; `FILE_NAME_NAME_LENGTH` is 1. -/
def isNodeName (node : List UInt8) (item : ℕ) : Bool :=
  node[item + 8]? = some fileNameName ∧ SmallData.nameSize node item = 1

namespace Inode

variable (io : AttributeIo) (inode : Inode) (name : List UInt8)

/-- `ReadAttribute()`; the result is what has been read, or `none` for `B_ENTRY_NOT_FOUND`. -/
def readAttribute (pos length : ℕ) : Option (List UInt8) :=
  let item := SmallData.find inode.node name
  if SmallData.isLast inode.node item then
    -- search in the attribute directory
    (inode.files name).map fun file => (file.contents.drop pos).take length
  else
    let dataSize := SmallData.dataSize inode.node item
    if pos ≥ dataSize then some []
    else
      let length := if length + pos > dataSize then dataSize - pos else length
      slice inode.node (SmallData.data inode.node item + pos) length

/-- `Name()`, which is a C string -/
def nodeName : Option (List UInt8) :=
  let item := SmallData.skip inode.node (isNodeName inode.node) inode.node.length SmallData.start
  if SmallData.isLast inode.node item then none
  else some ((inode.node.drop (SmallData.data inode.node item)).takeWhile (· ≠ 0))

variable (type pos : ℕ) (data : List UInt8)

/-- The part of `WriteAttribute()` for an attribute that is a file -/
def writeAttributeFile (file : AttributeFile) : Option (AttributeStatus × Inode) := do
  -- check if the data fits into the small_data section again
  let (status, inode) ← inode.addSmallData io name type pos data false
  if status = .ok then
    -- it does - remove its file
    match inode.removeFile io name with
    | some inode => some (.ok, inode)
    | none => some (.error, inode)
  else
    let file := { file with type }
    match inode.writeFile io name file pos data with
    | some inode => some (.ok, inode)
    | none => some (.error, { inode with files := Function.update inode.files name (some file) })

def writeAttribute : Option (AttributeStatus × Inode) :=
  match inode.files name with
  | some file => inode.writeAttributeFile io name type pos data file
  | none => do
    let isSmall := !SmallData.isLast inode.node (SmallData.find inode.node name)
    let (status, inode) ← inode.addSmallData io name type pos data false
    if status ≠ .deviceFull then some (status, inode)
    else
      -- there is no space left for the new data
      let (status, inode) ← (if isSmall then inode.removeSmallData name else some (.ok, inode))
      if status ≠ .ok then some (status, inode)
      else
        match inode.createAttribute io name type with
        | some (inode, file) => inode.writeAttributeFile io name type pos data file
        | none => some (.error, inode)

end Inode

/-! ## The attributes of an inode -/

def attributeOf (items : List Item) (files : List UInt8 → Option AttributeFile)
    (name : List UInt8) : Option (List UInt8) :=
  match findItem items name with
  | some item => some item.data
  | none => (files name).map AttributeFile.contents

/-- An attribute is in one place only, and the node's name ends with a null byte. -/
structure Inode.Valid (header : List UInt8) (items : List Item) (inode : Inode) : Prop where
  isSection : IsSection header items inode.node
  nodup : (items.map Item.name).Nodup
  small : ∀ item ∈ items, inode.files item.name = none
  tail : ∀ item ∈ items, item.name = [fileNameName] → item.tail = 0

variable {header node name data : List UInt8} {items pre post : List Item} {item : Item}
  {inode inode' : Inode} {type pos length : ℕ}

lemma slice_data (h : IsSection header (pre ++ item :: post) node) {k : ℕ}
    (hk : k = ((item.data.drop pos).take length).length) (hpos : pos ≤ item.data.length) :
    slice node (SmallData.data node (header ++ layout pre).length + pos) k =
      some ((item.data.drop pos).take length) := by
  obtain ⟨b, hnode⟩ := h.split
  have hsplit : (header ++ layout pre) ++ item.bytes ++ b =
      (header ++ layout pre ++ fields item.type item.name.length item.data.length ++
        (item.name ++ [0, item.pad.1, item.pad.2]) ++ item.data.take pos) ++
      (item.data.drop pos).take length ++
      ((item.data.drop pos).drop length ++ ([item.tail] ++ b)) := by
    have hdata : item.data = item.data.take pos ++ ((item.data.drop pos).take length ++
        (item.data.drop pos).drop length) := by
      rw [List.take_append_drop, List.take_append_drop]
    rw [Item.bytes]
    nth_rewrite 2 [hdata]
    simp only [List.append_assoc]
  rw [hnode, SmallData.data_at, hsplit, slice_append _ _ _ _ hk]
  simp only [List.length_append, length_fields, List.length_take, List.length_cons, List.length_nil]
  omega

lemma readAttribute_eq (h : IsSection header items inode.node) (name : List UInt8)
    (pos length : ℕ) :
    inode.readAttribute name pos length =
      (attributeOf items inode.files name).map fun contents => (contents.drop pos).take length := by
  rcases none_or_first (fun item : Item => item.name = name) items with
    habsent | ⟨pre, item, post, hitems, hname, hpre⟩
  · obtain ⟨_, hlast⟩ := h.find_of_absent habsent
    rw [attributeOf, findItem_of_absent habsent]
    unfold Inode.readAttribute
    simp only [hlast, if_true, Option.map_map]
    rfl
  · subst hitems
    obtain ⟨hfind, hlast⟩ := h.find_of_first hpre hname
    rw [attributeOf, findItem_of_first hpre hname]
    unfold Inode.readAttribute
    simp only [hlast, Bool.false_eq_true, if_false]
    rw [hfind, h.dataSize_eq inode]
    split_ifs with hpos hlong
    · rw [Option.map_some, List.drop_of_length_le hpos, List.take_nil]
    · rw [slice_data h _ (by omega), Option.map_some]
      rw [List.length_take, List.length_drop]
      omega
    · rw [slice_data h _ (by omega), Option.map_some]
      rw [List.length_take, List.length_drop]
      omega

lemma isNodeName_at (a b : List UInt8) (item : Item) :
    isNodeName (a ++ item.bytes ++ b) a.length = decide (item.name = [fileNameName]) := by
  unfold isNodeName
  rw [SmallData.getElem?_name_at, SmallData.nameSize_at]
  apply decide_eq_decide.2
  constructor
  · rintro ⟨hhead, hlen⟩
    obtain ⟨byte, hbyte⟩ := List.length_eq_one_iff.1 hlen
    rw [hbyte] at hhead ⊢
    rw [Option.some.inj hhead]
  · intro hname
    rw [hname]
    exact ⟨rfl, rfl⟩

lemma nodeName_eq (h : IsSection header items inode.node)
    (htail : ∀ item, findItem items [fileNameName] = some item → item.tail = 0) :
    inode.nodeName =
      (findItem items [fileNameName]).map fun item => item.data.takeWhile (· ≠ 0) := by
  obtain ⟨rest, hnode, hended⟩ := h.eq
  have hpos := h.header_pos
  have hstop : ∀ a (item : Item) b, inode.node = a ++ item.bytes ++ b →
      isNodeName inode.node a.length = decide (item.name = [fileNameName]) := by
    intro a item b hsplit
    rw [hsplit, isNodeName_at]
  unfold Inode.nodeName
  rw [← h.header_length]
  simp only
  rcases none_or_first (fun item : Item => item.name = [fileNameName]) items with
    habsent | ⟨pre, item, post, hitems, hname, hpre⟩
  · have hskip : SmallData.skip inode.node (isNodeName inode.node) inode.node.length header.length =
        _ :=
      SmallData.skip_of_none hstop hended hnode hpos
        fun item hitem => decide_eq_false (habsent item hitem)
    have hlast : SmallData.isLast inode.node (header ++ layout items).length = true := by
      rw [hnode]
      exact SmallData.isLast_ended _ hended
    rw [findItem_of_absent habsent, hskip, hlast, if_pos rfl]
    rfl
  · subst hitems
    have hnull := htail item (findItem_of_first hpre hname)
    obtain ⟨b, hsplit⟩ := h.split
    have hskip : SmallData.skip inode.node (isNodeName inode.node) inode.node.length header.length =
        _ :=
      SmallData.skip_of_first hstop hended hnode hpos
        (fun item hitem => decide_eq_false (hpre item hitem)) (decide_eq_true hname)
    have hlast : SmallData.isLast inode.node (header ++ layout pre).length = false := by
      rw [hsplit]
      exact SmallData.isLast_at _ _ item
    have hdata : inode.node.drop (SmallData.data inode.node (header ++ layout pre).length) =
        item.data ++ 0 :: b := by
      have hparts : (header ++ layout pre) ++ item.bytes ++ b =
          (header ++ layout pre ++ fields item.type item.name.length item.data.length ++
            (item.name ++ [0, item.pad.1, item.pad.2])) ++ (item.data ++ 0 :: b) := by
        rw [Item.bytes, hnull]
        simp only [List.append_assoc, List.singleton_append]
      have hlen : (header ++ layout pre).length + 8 + item.name.length + 3 =
          (header ++ layout pre ++ fields item.type item.name.length item.data.length ++
            (item.name ++ [0, item.pad.1, item.pad.2])).length := by
        simp only [List.length_append, length_fields, List.length_cons, List.length_nil]
        omega
      rw [hsplit, SmallData.data_at, hlen, hparts, List.drop_left]
    rw [findItem_of_first hpre hname, hskip, hlast, if_neg Bool.false_ne_true, hdata,
      takeWhile_append_null]
    rfl

/-! ## What a write promises -/

/-- What a write promises, `old` being the contents before it -/
structure WriteRight (inode inode' : Inode) (name old : List UInt8) (pos : ℕ) (data : List UInt8) :
    Prop where
  read : ∀ p k, p + k ≤ pos + data.length →
    inode'.readAttribute name p k = some (((written old pos data).drop p).take k)
  other : ∀ other, other ≠ name → ∀ p k,
    inode'.readAttribute other p k = inode.readAttribute other p k
  nodeName : inode'.nodeName = inode.nodeName

lemma Inode.Valid.findItem_tail (h : inode.Valid header items) (item : Item)
    (hitem : findItem items [fileNameName] = some item) : item.tail = 0 := by
  have hname : item.name = [fileNameName] := by simpa using List.find?_some hitem
  exact h.tail item (List.mem_of_find?_eq_some hitem) hname

lemma drop_take_of_take {c w : List UInt8} {n : ℕ} (h : c.take n = w) {p k : ℕ} (hle : p + k ≤ n) :
    (c.drop p).take k = (w.drop p).take k := by
  rw [← h, List.drop_take, List.take_take, Nat.min_eq_left (by omega)]

lemma WriteRight.of_attributes {items' : List Item} {old contents : List UInt8}
    (h : inode.Valid header items) (h' : IsSection header items' inode'.node)
    (htag : name ≠ [fileNameName])
    (hnew : attributeOf items' inode'.files name = some contents)
    (hcontents : contents.take (pos + data.length) = written old pos data)
    (hitems : ∀ other, other ≠ name → findItem items' other = findItem items other)
    (hfiles : ∀ other, other ≠ name → inode'.files other = inode.files other) :
    WriteRight inode inode' name old pos data where
  read p k hle := by
    rw [readAttribute_eq h', hnew, Option.map_some, drop_take_of_take hcontents hle]
  other other hne p k := by
    rw [readAttribute_eq h', readAttribute_eq h.isSection, attributeOf, attributeOf,
      hitems other hne, hfiles other hne]
  nodeName := by
    have hsame := hitems _ htag.symm
    rw [nodeName_eq h' (by rw [hsame]; exact h.findItem_tail), nodeName_eq h.isSection h.findItem_tail,
      hsame]

lemma findItem_place_self (new : Item) (items : List Item) :
    findItem (place new items) new.name = some new := by
  rcases none_or_first (fun item : Item => item.name = new.name) items with
    habsent | ⟨pre, item, post, hitems, hname, hpre⟩
  · rw [place_of_absent habsent]
    exact findItem_of_first habsent rfl
  · rw [hitems, place_of_first hpre hname]
    exact findItem_of_first hpre rfl

lemma findItem_place_of_ne {new : Item} {other : List UInt8} (hne : other ≠ new.name)
    (items : List Item) : findItem (place new items) other = findItem items other := by
  have hnew : ¬new.name = other := fun heq => hne heq.symm
  unfold findItem
  induction items with
  | nil => rw [place, List.find?_cons_of_neg (by simp [hnew])]
  | cons item items ih =>
    rw [place]
    split_ifs with hname
    · rw [List.find?_cons_of_neg (by simp [hnew]),
        List.find?_cons_of_neg (by rw [hname]; simp [hnew])]
    · rw [List.find?_cons, List.find?_cons, ih]

lemma findItem_removeName_of_ne {other : List UInt8} (hne : other ≠ name) (items : List Item) :
    findItem (removeName items name) other = findItem items other := by
  unfold findItem removeName
  induction items with
  | nil => rfl
  | cons item items ih =>
    by_cases hname : item.name = name
    · rw [List.eraseP_cons_of_pos (by simp [hname]),
        List.find?_cons_of_neg (by rw [hname]; simp [hne.symm])]
    · rw [List.eraseP_cons_of_neg (by simp [hname]), List.find?_cons, List.find?_cons, ih]

end Haiku.Bfs

