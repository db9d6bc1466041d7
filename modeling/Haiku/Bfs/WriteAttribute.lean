import Haiku.Bfs.Attributes

/-!
# Writing an attribute

When `Inode::WriteAttribute()` does what a write promises: not if a new item is written behind its
beginning, and not if an attribute loses its old data when it moves.
-/

namespace Haiku.Bfs

open Function Haiku.Lib

variable {a c header node name data : List UInt8} {items pre post : List Item} {item : Item}
  {inode inode' : Inode} {type pos length space : ℕ}

/-! ## A new item behind its beginning -/

lemma skip_prefix {stop : ℕ → Bool} {p : Item → Bool}
    (hstop : ∀ a item b, node = a ++ Item.bytes item ++ b → stop a.length = p item)
    (hnone : ∀ item ∈ items, p item = false) (rounds : ℕ) (hnode : node = a ++ layout items ++ c) :
    SmallData.skip node stop (rounds + items.length) a.length =
      SmallData.skip node stop rounds (a ++ layout items).length := by
  induction items generalizing a with
  | nil => rw [layout_nil, List.append_nil, List.length_nil, Nat.add_zero]
  | cons item items ih =>
    obtain ⟨hitem, hitems⟩ := List.forall_mem_cons.1 hnone
    have hsplit : node = a ++ item.bytes ++ (layout items ++ c) := by
      rw [hnode, append_layout_cons]
    have hlast : SmallData.isLast node a.length = false := by rw [hsplit, SmallData.isLast_at]
    have hnext : SmallData.next node a.length = (a ++ item.bytes).length := by
      rw [hsplit, SmallData.next_at]
    have htail : node = (a ++ item.bytes) ++ layout items ++ c := by rw [hnode, append_layout_tail]
    rw [List.length_cons, ← Nat.add_assoc, SmallData.skip, hstop a item _ hsplit, hitem, hlast, hnext,
      if_neg (by simp), ih hitems htail, layout_cons, List.append_assoc]

lemma appendItem_fields (happend : appendItem (a ++ c) a.length space name type pos data = some node)
    (hle : (a ++ c).length ≤ 2 ^ 16) :
    ∃ t, node = a ++ fields type name.length data.length ++ (name ++ 0 :: t) ∧
      node.length = (a ++ c).length := by
  unfold appendItem at happend
  obtain ⟨node₁, hset, happend⟩ := Option.bind_eq_some_iff.1 happend
  obtain ⟨node₂, hwrite, hend⟩ := Option.bind_eq_some_iff.1 happend
  obtain ⟨t₁, hnode₁, hlen₁⟩ := memcpy_behind hset (le_refl _)
  unfold writeItem at hwrite
  obtain ⟨node₃, htype, hwrite⟩ := Option.bind_eq_some_iff.1 hwrite
  obtain ⟨node₄, hname, hwrite⟩ := Option.bind_eq_some_iff.1 hwrite
  obtain ⟨node₅, hsize, hwrite⟩ := Option.bind_eq_some_iff.1 hwrite
  obtain ⟨node₆, hstring, hdata⟩ := Option.bind_eq_some_iff.1 hwrite
  rw [hnode₁] at htype
  obtain ⟨hnode₃, hle₃⟩ := memcpy_next htype rfl
  rw [hnode₃] at hname
  obtain ⟨hnode₄, hle₄⟩ := memcpy_next hname (by rw [List.length_append, length_digits])
  rw [hnode₄] at hsize
  obtain ⟨hnode₅, hle₅⟩ := memcpy_next hsize (by simp only [List.length_append, length_digits])
  rw [hnode₅] at hstring
  obtain ⟨hnode₆, hle₆⟩ := memcpy_next hstring (by simp only [List.length_append, length_digits])
  simp only [length_digits, List.length_drop] at hle₃ hle₄
  simp only [length_digits, List.length_drop, List.length_append, List.length_singleton] at hle₅ hle₆
  rw [List.length_append] at hle
  have hfields : node₆ = (a ++ fields type name.length data.length ++ (name ++ [0])) ++
      ((((t₁.drop 4).drop 2).drop 2).drop (name.length + 1)) := by
    rw [hnode₆]
    simp only [fields, length_digits, List.length_append, List.length_singleton, List.append_assoc]
  have hpos :
    ∀ t, SmallData.nameSize (a ++ fields type name.length data.length ++ (name ++ [0]) ++ t)
      a.length = name.length := by
    intro t
    rw [List.append_assoc _ (name ++ [0]), SmallData.nameSize_fields, Nat.mod_eq_of_lt (by omega)]
  have hfront : (a ++ fields type name.length data.length ++ (name ++ [0])).length =
      a.length + 8 + (name.length + 1) := by
    simp only [List.length_append, length_fields, List.length_singleton]
  -- what follows is written behind the name
  rw [hfields] at hdata
  obtain ⟨t₂, hnode₂, hlen₂⟩ := memcpy_behind hdata (by
    rw [hfront, SmallData.data, hpos]
    omega)
  have hresult : ∀ t, t.length = t₂.length →
      ∃ t', a ++ fields type name.length data.length ++ (name ++ [0]) ++ t =
          a ++ fields type name.length data.length ++ (name ++ 0 :: t') ∧
        (a ++ fields type name.length data.length ++ (name ++ [0]) ++ t).length = (a ++ c).length := by
    intro t ht
    refine ⟨t, by simp only [List.append_assoc, List.singleton_append], ?_⟩
    rw [List.length_append, hfront, ht, hlen₂, List.length_append]
    simp only [List.length_drop]
    omega
  have hnext : (a ++ fields type name.length data.length ++ (name ++ [0])).length ≤
      SmallData.next node₂ a.length := by
    rw [hfront, hnode₂, SmallData.next, SmallData.size, hpos]
    omega
  simp only at hend
  split_ifs at hend
  · rw [← Option.some.inj hend, hnode₂]
    exact hresult t₂ rfl
  · rw [hnode₂] at hend hnext
    obtain ⟨t₃, hnode₃, hlen₃⟩ := memcpy_behind hend hnext
    rw [hnode₃]
    exact hresult t₃ hlen₃

lemma find_of_appended {t : List UInt8} (h : IsSection header items node) (hname : name ≠ [])
    (hnull : 0 ∉ name) (habsent : ∀ item ∈ items, item.name ≠ name)
    (hle : (header ++ layout items ++ fields type name.length length ++ (name ++ 0 :: t)).length ≤
      2 ^ 16) :
    SmallData.find (header ++ layout items ++ fields type name.length length ++ (name ++ 0 :: t)) name =
        (header ++ layout items).length ∧
      SmallData.isLast (header ++ layout items ++ fields type name.length length ++ (name ++ 0 :: t))
        (header ++ layout items).length = false := by
  set node' := header ++ layout items ++ fields type name.length length ++ (name ++ 0 :: t) with hnode'
  have hsplit : node' = header ++ layout items ++
      (fields type name.length length ++ (name ++ 0 :: t)) := by
    rw [hnode', List.append_assoc _ (fields _ _ _)]
  have hlen :
    node'.length = (header ++ layout items).length + 8 + (name.length + (t.length + 1)) := by
    simp only [hnode', List.length_append, length_fields, List.length_cons]
  have hpos : 0 < name.length := List.length_pos_of_ne_nil hname
  have hrounds : items.length < node'.length := SmallData.rounds_le hsplit h.header_pos
  constructor
  · have hskip :
    SmallData.skip node' (fun item => SmallData.name node' item = name) (node'.length - items.length - 1 + 1 + items.length)
        header.length = _ :=
      skip_prefix (SmallData.name_stop name) (fun item hitem => decide_eq_false (habsent item hitem))
        (node'.length - items.length - 1 + 1) hsplit
    have hfuel : node'.length - items.length - 1 + 1 + items.length = node'.length := by omega
    have hstop : SmallData.name node' (header ++ layout items).length = name :=
      SmallData.name_fields _ _ _ _ _ hnull
    rw [hfuel, h.header_length] at hskip
    unfold SmallData.find
    rw [hskip, SmallData.skip, if_pos (Or.inr (decide_eq_true hstop))]
  · unfold SmallData.isLast
    rw [SmallData.nameSize_fields, Nat.mod_eq_of_lt (by omega)]
    apply decide_eq_false
    omega

lemma read_of_appended {bytes : List UInt8} (h : IsSection header items node) (hname : name ≠ [])
    (hnull : 0 ∉ name) (habsent : ∀ item ∈ items, item.name ≠ name)
    (happend : appendItem node (header ++ layout items).length space name type pos data =
      some inode'.node)
    (hwrong : pos ≠ 0 ∨ 2 ^ 32 ≤ bytesFor name data.length)
    (hread : inode'.readAttribute name 0 (pos + data.length) = some bytes) :
    bytes.length < pos + data.length := by
  obtain ⟨rest, hnode, _⟩ := h.eq
  have hle := h.node_le
  rw [hnode] at happend hle
  obtain ⟨t, hnode', hlen⟩ := appendItem_fields happend hle
  rw [← hlen, hnode'] at hle
  obtain ⟨hfind, hlast⟩ := find_of_appended h hname hnull habsent hle
  have hsize : SmallData.dataSize inode'.node (header ++ layout items).length =
      data.length % 2 ^ 16 := by
    rw [hnode', SmallData.dataSize_fields]
  rw [← hnode'] at hfind hlast
  have hname' : name.length < 2 ^ 16 := by
    simp only [List.length_append, length_fields, List.length_cons] at hle
    omega
  have hshort : data.length % 2 ^ 16 < pos + data.length := by
    unfold bytesFor at hwrong
    omega
  unfold Inode.readAttribute at hread
  simp only at hread
  rw [hfind, hlast, if_neg Bool.false_ne_true, hsize] at hread
  split_ifs at hread with hzero
  · rw [← Option.some.inj hread]
    exact Nat.zero_lt_of_lt hshort
  · rw [length_slice hread]
    omega
  · omega

lemma not_writeRight {old : List UInt8}
    (h : ∀ bytes, inode'.readAttribute name 0 (pos + data.length) = some bytes →
      bytes ≠ written old pos data) : ¬WriteRight inode inode' name old pos data := by
  intro hright
  have hread := hright.read 0 (pos + data.length) (by omega)
  apply h _ hread
  rw [List.drop_zero, ← length_written old, List.take_length]

/-! ## When a write is right -/

/-- What `_AddSmallData()` checks for a new item; the sum is a `uint32`. -/
def HasRoom (items : List Item) (name : List UInt8) (pos length size : ℕ) : Prop :=
  SmallData.start + (layout (removeName items name)).length + spaceNeeded name pos length ≤ size

/-- The condition for a write: no new item is written behind its beginning, or with a size that is not
a `uint32`, and an attribute that becomes a file has nothing but zeros up to `pos`. -/
def KeepsData (items : List Item) (name : List UInt8) (pos length size : ℕ) : Prop :=
  match findItem items name with
  | some old => Fits items name (pos + length) size ∨
      ¬HasRoom items name pos length size ∧
        (pos + length < 2 ^ 63 → ∀ byte ∈ old.data.take pos, byte = 0)
  | none => HasRoom items name pos length size → pos = 0 ∧ bytesFor name length < 2 ^ 32

def WritesRight (io : AttributeIo) (inode : Inode) (name old : List UInt8) (type pos : ℕ)
    (data : List UInt8) : Prop :=
  ∃ status inode', inode.writeAttribute io name type pos data = some (status, inode') ∧
    (status = .ok → WriteRight inode inode' name old pos data)

/-- A section without the item `name`, in which all others are as in `items` -/
structure Without (header : List UInt8) (items items' : List Item) (name node : List UInt8) :
    Prop where
  isSection : IsSection header items' node
  absent : ∀ item ∈ items', item.name ≠ name
  others : ∀ other, other ≠ name → findItem items' other = findItem items other

variable {inode₀ : Inode}

section

variable {items' : List Item} {old : List UInt8} {file : AttributeFile} (io : AttributeIo)

lemma addSmallData_of_room (h : IsSection header items inode.node)
    (habsent : ∀ item ∈ items, item.name ≠ name)
    (hroom : SmallData.start + (layout items).length + spaceNeeded name pos data.length ≤
      inode.node.length) :
    inode.addSmallData io name type pos data false =
      (appendItem inode.node (header ++ layout items).length (spaceNeeded name pos data.length) name
        type pos data).map fun node => (.ok, { inode with node }) := by
  rw [addSmallData_of_absent io inode h habsent (by omega)]
  unfold Inode.appendSmallData
  simp only
  rw [if_neg (by rw [List.length_append, h.header_length]; omega), Option.map_eq_bind]
  rfl

lemma addSmallData_new (h : Without header items items' name inode.node) (hname : name ≠ [])
    (hnull : 0 ∉ name) (htype : type < 2 ^ 32) (hsmall : bytesFor name data.length < 2 ^ 32)
    (hroom : SmallData.start + (layout items').length + spaceNeeded name 0 data.length ≤
      inode.node.length) :
    ∃ node' new, inode.addSmallData io name type 0 data false = some (.ok, { inode with node := node' }) ∧
      IsSection header (place new items') node' ∧ new.name = name ∧ new.data = data := by
  have hspace : spaceNeeded name 0 data.length = bytesFor name (0 + data.length) := by
    apply spaceNeeded_of_lt
    rw [Nat.zero_add]
    exact hsmall
  rw [hspace] at hroom
  obtain ⟨node', new, happend, hsection, _, hname', _, hdata, _⟩ :=
    appendItem_section h.isSection htype hname hnull hroom
  refine ⟨node', new, ?_, ?_, hname', ?_⟩
  · rw [addSmallData_of_room io h.isSection h.absent (by rw [hspace]; exact hroom), hspace, happend]
    rfl
  · rw [place_of_absent (by rw [hname']; exact h.absent)]
    exact hsection
  · rw [hdata, List.replicate_zero, List.nil_append, List.take_length]

lemma written_zero (old data : List UInt8) : written old 0 data = data := by
  rw [written, List.take_zero, Nat.zero_sub, List.replicate_zero, List.append_nil, List.nil_append]

lemma writeRight_of_new {new : Item} {node' : List UInt8}
    {files : List UInt8 → Option AttributeFile} (hvalid : inode₀.Valid header items)
    (htag : name ≠ [fileNameName]) (h : Without header items items' name inode.node)
    (hsection : IsSection header (place new items') node') (hname : new.name = name)
    (hdata : new.data = data) (hfiles : ∀ other, other ≠ name → files other = inode₀.files other) :
    WriteRight inode₀ { node := node', files := files } name old 0 data := by
  subst hname hdata
  apply WriteRight.of_attributes hvalid hsection htag _ _ _ hfiles
  · exact new.data
  · rw [attributeOf, findItem_place_self]
  · rw [written_zero, Nat.zero_add, List.take_length]
  · intro other hne
    rw [findItem_place_of_ne hne, h.others other hne]

lemma writeAttributeFile_of_full (h : Without header items items' name inode.node)
    (hfull : inode.node.length <
      SmallData.start + (layout items').length + spaceNeeded name pos data.length) :
    inode.writeAttributeFile io name type pos data file =
      match inode.writeFile io name { file with type } pos data with
      | some inode => some (.ok, inode)
      | none => some (.error, { inode with
          files := update inode.files name (some { file with type }) }) := by
  unfold Inode.writeAttributeFile
  rw [addSmallData_of_absent_full io inode h.isSection h.absent hfull, Option.bind_eq_bind,
    Option.bind_some]
  exact if_neg (by decide)

lemma take_writeAt (file : AttributeFile) (pos : ℕ) (data : List UInt8) :
    (file.writeAt pos data).contents.take (pos + data.length) = written file.contents pos data := by
  show (written file.contents pos data ++ _).take _ = _
  rw [List.take_append_of_le_length (by rw [length_written]), ← length_written file.contents,
    List.take_length]

lemma writeRight_of_file (hvalid : inode₀.Valid header items) (htag : name ≠ [fileNameName])
    (h : Without header items items' name inode.node)
    (hold : written file.contents pos data = written old pos data)
    (hfiles : ∀ other, other ≠ name → inode.files other = inode₀.files other) :
    WriteRight inode₀
      { inode with files := update inode.files name (some (file.writeAt pos data)) }
      name old pos data := by
  have hsection : IsSection header items' (Inode.mk inode.node
      (update inode.files name (some (file.writeAt pos data)))).node := h.isSection
  apply WriteRight.of_attributes hvalid hsection htag _ _ h.others
  · intro other hne
    show update inode.files name _ other = _
    rw [update_of_ne hne, hfiles other hne]
  · exact (file.writeAt pos data).contents
  · rw [attributeOf, findItem_of_absent h.absent]
    simp only [update_self, Option.map_some]
  · rw [take_writeAt, hold]

lemma writeAttributeFile_right (hvalid : inode₀.Valid header items) (hname : name ≠ [])
    (hnull : 0 ∉ name) (htag : name ≠ [fileNameName]) (htype : type < 2 ^ 32)
    (h : Without header items items' name inode.node)
    (hroom : SmallData.start + (layout items').length + spaceNeeded name pos data.length ≤
      inode.node.length → pos = 0 ∧ bytesFor name data.length < 2 ^ 32) (hold : inode.node.length <
        SmallData.start + (layout items').length + spaceNeeded name pos data.length →
      pos + data.length < 2 ^ 63 → written file.contents pos data = written old pos data)
    (hfiles : ∀ other, other ≠ name → inode.files other = inode₀.files other) :
    ∃ status inode', inode.writeAttributeFile io name type pos data file = some (status, inode') ∧
      (status = .ok → WriteRight inode₀ inode' name old pos data) := by
  by_cases hfit : SmallData.start + (layout items').length + spaceNeeded name pos data.length ≤
      inode.node.length
  · obtain ⟨hpos, hsmall⟩ := hroom hfit
    subst hpos
    obtain ⟨node', new, hadd, hsection, hname', hdata⟩ :=
      addSmallData_new io h hname hnull htype hsmall hfit
    unfold Inode.writeAttributeFile
    rw [hadd, Option.bind_eq_bind, Option.bind_some]
    simp only [if_true, Inode.removeFile]
    by_cases hremove : io.remove name
    · rw [if_pos hremove]
      refine ⟨.ok, _, rfl, fun _ => writeRight_of_new hvalid htag h hsection hname' hdata ?_⟩
      intro other hne
      rw [update_of_ne hne, hfiles other hne]
    · rw [if_neg hremove]
      exact ⟨.error, _, rfl, fun hok => absurd hok (by decide)⟩
  · rw [writeAttributeFile_of_full io h (by omega), Inode.writeFile]
    by_cases hwrite : io.write name ∧ pos + data.length < 2 ^ 63
    · rw [if_pos hwrite]
      exact ⟨.ok, _, rfl, fun _ => writeRight_of_file hvalid htag h
        (hold (by omega) hwrite.2) hfiles⟩
    · rw [if_neg hwrite]
      exact ⟨.error, _, rfl, fun hok => absurd hok (by decide)⟩

lemma not_writeRight_of_room {status : AttributeStatus} (hname : name ≠ []) (hnull : 0 ∉ name)
    (h : Without header items items' name inode.node)
    (hroom : SmallData.start + (layout items').length + spaceNeeded name pos data.length ≤
      inode.node.length) (hwrong : ¬(pos = 0 ∧ bytesFor name data.length < 2 ^ 32))
    (hremove : io.remove name)
    (hrun : inode.writeAttributeFile io name type pos data file = some (status, inode')) :
    status = .ok ∧ ¬WriteRight inode₀ inode' name old pos data := by
  unfold Inode.writeAttributeFile at hrun
  rw [addSmallData_of_room io h.isSection h.absent hroom] at hrun
  obtain ⟨result, hadd, hrun⟩ := Option.bind_eq_some_iff.1 hrun
  obtain ⟨node', happend, hresult⟩ := Option.map_eq_some_iff.1 hadd
  rw [← hresult] at hrun
  simp only [if_true, Inode.removeFile, hremove] at hrun
  obtain ⟨hstatus, hinode⟩ := Prod.mk.inj (Option.some.inj hrun)
  have hnode : inode'.node = node' := by rw [← hinode]
  rw [← hnode] at happend
  refine ⟨hstatus.symm, not_writeRight fun bytes hread heq => ?_⟩
  have hlt := read_of_appended h.isSection hname hnull h.absent happend (by omega) hread
  rw [heq, length_written] at hlt
  omega

end

/-! ## The whole write -/

section

variable {items' : List Item} {node' : List UInt8} {old : Item} {file : AttributeFile}
  (io : AttributeIo)

lemma Inode.Valid.without (h : inode.Valid header items) (habsent : ∀ item ∈ items, item.name ≠ name) :
    Without header items items name inode.node :=
  ⟨h.isSection, habsent, fun _ _ => rfl⟩

lemma Inode.Valid.without_removed (h : inode.Valid header items) (hold : findItem items name = some old)
    (hsection : IsSection header (removeName items name) node') :
    Without header items (removeName items name) name node' where
  isSection := hsection
  absent := by
    rcases none_or_first (fun item : Item => item.name = name) items with
      habsent | ⟨pre, item, post, hitems, hname, hpre⟩
    · rw [findItem_of_absent habsent] at hold
      exact absurd hold (by simp)
    · have hnodup := h.nodup
      rw [hitems, removeName_of_first hpre hname]
      rw [hitems, List.map_append, List.map_cons, List.nodup_append, List.nodup_cons] at hnodup
      intro other hother
      apply (List.mem_append.1 hother).elim (hpre other)
      intro hpost heq
      apply hnodup.2.1.1
      rw [hname, ← heq]
      exact List.mem_map_of_mem hpost
  others := fun other hne => findItem_removeName_of_ne hne items

lemma writeAttribute_of_file (hfile : inode.files name = some file) :
    inode.writeAttribute io name type pos data = inode.writeAttributeFile io name type pos data file := by
  unfold Inode.writeAttribute
  rw [hfile]

lemma writeAttribute_of_moved (h : inode.Valid header items) (hnone : inode.files name = none)
    (hold : findItem items name = some old)
    (hfull : ¬Fits items name (pos + data.length) inode.node.length) :
    ∃ node', IsSection header (removeName items name) node' ∧ node'.length = inode.node.length ∧
      inode.writeAttribute io name type pos data =
        match ({ inode with node := node' } : Inode).createAttribute io name type with
        | some (inode, file) => inode.writeAttributeFile io name type pos data file
        | none => some (.error, { inode with node := node' }) := by
  rcases none_or_first (fun item : Item => item.name = name) items with
    habsent | ⟨pre, item, post, hitems, hname, hpre⟩
  · rw [findItem_of_absent habsent] at hold
    exact absurd hold (by simp)
  · subst hitems
    have hsection := h.isSection
    obtain ⟨hfind, hlast⟩ := hsection.find_of_first hpre hname
    obtain ⟨node', hremove, hremoved, hlen⟩ := removeItem_section hsection
    refine ⟨node', by rw [removeName_of_first hpre hname]; exact hremoved, hlen, ?_⟩
    have hcall : inode.removeSmallData name = some (.ok, { inode with node := node' }) := by
      unfold Inode.removeSmallData
      simp only
      rw [hlast, if_neg Bool.false_ne_true, hfind, hremove]
      rfl
    unfold Inode.writeAttribute
    rw [hnone]
    simp only
    rw [addSmallData_of_first_full io inode hsection hpre hname hfull, hlast, Option.bind_eq_bind,
      Option.bind_some]
    simp only
    rw [if_neg (by simp), Bool.not_false, if_pos rfl, hcall, Option.bind_some]
    exact if_neg (by simp)

lemma writeAttribute_of_new (h : inode.Valid header items) (hnone : inode.files name = none)
    (habsent : ∀ item ∈ items, item.name ≠ name)
    (hfull : inode.node.length <
      SmallData.start + (layout items).length + spaceNeeded name pos data.length) :
    inode.writeAttribute io name type pos data =
      match inode.createAttribute io name type with
      | some (inode, file) => inode.writeAttributeFile io name type pos data file
      | none => some (.error, inode) := by
  obtain ⟨_, hlast⟩ := h.isSection.find_of_absent habsent
  unfold Inode.writeAttribute
  rw [hnone]
  simp only
  rw [addSmallData_of_absent_full io inode h.isSection habsent hfull, hlast, Option.bind_eq_bind,
    Option.bind_some]
  simp only
  rw [if_neg (by simp), Bool.not_true, if_neg Bool.false_ne_true, Option.bind_some]
  exact if_neg (by simp)

lemma writeAttribute_of_added (hnone : inode.files name = none)
    (hadd : inode.addSmallData io name type pos data false =
      some (.ok, { inode with node := node' })) :
    inode.writeAttribute io name type pos data = some (.ok, { inode with node := node' }) := by
  unfold Inode.writeAttribute
  rw [hnone]
  simp only
  rw [hadd, Option.bind_eq_bind, Option.bind_some]
  simp only
  rw [if_pos (by decide)]

lemma createAttribute_of_none (hnone : inode.files name = none) :
    inode.createAttribute io name type =
      if io.create name then
        some ({ inode with files := update inode.files name (some ⟨type, []⟩) }, ⟨type, []⟩)
      else none := by
  unfold Inode.createAttribute
  rw [hnone]
  rfl

lemma written_nil_iff (old : List UInt8) (pos : ℕ) (data : List UInt8) :
    written [] pos data = written old pos data ↔ ∀ byte ∈ old.take pos, byte = 0 := by
  unfold written
  rw [List.take_nil, List.nil_append, List.length_nil, Nat.sub_zero, List.append_left_inj]
  constructor
  · intro heq byte hbyte
    apply List.eq_of_mem_replicate
    rw [heq]
    exact List.mem_append_left _ hbyte
  · intro hzeros
    have htake : old.take pos = List.replicate (min pos old.length) 0 := by
      rw [List.eq_replicate_iff]
      exact ⟨List.length_take, hzeros⟩
    rw [htake, ← List.replicate_add]
    congr 1
    omega

lemma createdFile_right {old : List UInt8} (hvalid : inode₀.Valid header items)
    (hname : name ≠ []) (hnull : 0 ∉ name) (htag : name ≠ [fileNameName]) (htype : type < 2 ^ 32)
    (h : Without header items items' name inode.node) (hnone : inode.files name = none)
    (hroom : SmallData.start + (layout items').length + spaceNeeded name pos data.length ≤
      inode.node.length → pos = 0 ∧ bytesFor name data.length < 2 ^ 32)
    (hold : pos + data.length < 2 ^ 63 → ∀ byte ∈ old.take pos, byte = 0)
    (hfiles : ∀ other, other ≠ name → inode.files other = inode₀.files other) :
    ∃ status inode', (match inode.createAttribute io name type with
      | some (inode, file) => inode.writeAttributeFile io name type pos data file
      | none => some (.error, inode)) = some (status, inode') ∧
      (status = .ok → WriteRight inode₀ inode' name old pos data) := by
  rw [createAttribute_of_none io hnone]
  by_cases hcreate : io.create name
  · have hcreated : Without header items items' name (Inode.mk inode.node
        (update inode.files name (some ⟨type, []⟩))).node := h
    rw [if_pos hcreate]
    simp only
    apply writeAttributeFile_right io hvalid hname hnull htag htype hcreated hroom
    · intro _ hlt
      exact (written_nil_iff old pos data).2 (hold hlt)
    · intro other hne
      show update inode.files name _ other = _
      rw [update_of_ne hne, hfiles other hne]
  · rw [if_neg hcreate]
    exact ⟨.error, inode, rfl, fun hok => absurd hok (by decide)⟩

def oldContents (items : List Item) (inode : Inode) (name : List UInt8) : List UInt8 :=
  (attributeOf items inode.files name).getD []

lemma writesRight_of_keepsData (h : inode.Valid header items) (hname : name ≠ [])
    (hnull : 0 ∉ name) (htag : name ≠ [fileNameName]) (htype : type < 2 ^ 32)
    (hkeeps : KeepsData items name pos data.length inode.node.length) :
    WritesRight io inode name (oldContents items inode name) type pos data := by
  unfold WritesRight oldContents attributeOf
  unfold KeepsData HasRoom at hkeeps
  rcases none_or_first (fun item : Item => item.name = name) items with
    habsent | ⟨pre, item, post, hitems, hitem, hpre⟩
  · have hwithout := h.without habsent
    rw [findItem_of_absent habsent] at hkeeps ⊢
    simp only [removeName_of_absent habsent] at hkeeps
    cases hfile : inode.files name with
    | some file =>
      rw [writeAttribute_of_file io hfile]
      exact writeAttributeFile_right io h hname hnull htag htype hwithout hkeeps (fun _ _ => rfl)
        fun _ _ => rfl
    | none =>
      by_cases hfull : inode.node.length <
          SmallData.start + (layout items).length + spaceNeeded name pos data.length
      · rw [writeAttribute_of_new io h hfile habsent hfull]
        apply createdFile_right io h hname hnull htag htype hwithout hfile hkeeps _ fun _ _ => rfl
        intro _ byte hbyte
        rw [Option.map_none, Option.getD_none, List.take_nil] at hbyte
        exact absurd hbyte List.not_mem_nil
      · obtain ⟨hpos, hsmall⟩ := hkeeps (by omega)
        subst hpos
        obtain ⟨node', new, hadd, hsection, hname', hdata⟩ :=
          addSmallData_new io hwithout hname hnull htype hsmall (by omega)
        refine ⟨.ok, _, writeAttribute_of_added io hfile hadd, fun _ => ?_⟩
        exact writeRight_of_new h htag hwithout hsection hname' hdata fun _ _ => rfl
  · have hfind : findItem items name = some item := by
      rw [hitems]
      exact findItem_of_first hpre hitem
    have hnone : inode.files name = none := by
      rw [← hitem]
      exact h.small item (by rw [hitems]; simp)
    rw [hfind] at hkeeps ⊢
    simp only at hkeeps
    rw [Option.getD_some]
    by_cases hfits : Fits items name (pos + data.length) inode.node.length
    · obtain ⟨node', (hadd : inode.addSmallData io name type pos data false = _), hstored, _⟩ :=
        addSmallData_of_fits io inode h.isSection htype hnull hfits
      obtain ⟨new, hsection, hname', _, hdata, _⟩ := hstored.named hname
      refine ⟨.ok, _, writeAttribute_of_added io hnone hadd, fun _ => ?_⟩
      subst hname'
      rw [storedData, hfind] at hdata
      have hsection' :
          IsSection header (place new items) (Inode.mk node' inode.files).node := hsection
      apply WriteRight.of_attributes h hsection' htag _ _ _ fun _ _ => rfl
      · exact new.data
      · rw [attributeOf, findItem_place_self]
      · rw [hdata, ← length_written item.data, List.take_length]
      · exact fun other hne => findItem_place_of_ne hne items
    · obtain ⟨hroom, hzeros⟩ := hkeeps.resolve_left hfits
      obtain ⟨node', hsection, hlen, (hwrite : inode.writeAttribute io name type pos data = _)⟩ :=
        writeAttribute_of_moved io h hnone hfind hfits
      have hwithout : Without header items (removeName items name) name
          (Inode.mk node' inode.files).node := h.without_removed hfind hsection
      rw [hwrite]
      apply createdFile_right io h hname hnull htag htype hwithout hnone _ hzeros fun _ _ => rfl
      intro hfit
      rw [hlen] at hfit
      exact absurd hfit hroom

end

section

variable {items' : List Item} {old : List UInt8} {status : AttributeStatus}

lemma not_writeRight_of_added (h : inode.Valid header items) (hname : name ≠ [])
    (hnull : 0 ∉ name) (habsent : ∀ item ∈ items, item.name ≠ name)
    (hnone : inode.files name = none)
    (hroom : SmallData.start + (layout items).length + spaceNeeded name pos data.length ≤
      inode.node.length) (hwrong : ¬(pos = 0 ∧ bytesFor name data.length < 2 ^ 32))
    (hrun : inode.writeAttribute allowed name type pos data = some (status, inode')) :
    status = .ok ∧ ¬WriteRight inode inode' name old pos data := by
  unfold Inode.writeAttribute at hrun
  rw [hnone] at hrun
  simp only at hrun
  rw [addSmallData_of_room allowed h.isSection habsent hroom] at hrun
  obtain ⟨result, hadd, hrun⟩ := Option.bind_eq_some_iff.1 hrun
  obtain ⟨node', happend, hresult⟩ := Option.map_eq_some_iff.1 hadd
  rw [← hresult] at hrun
  simp only at hrun
  rw [if_pos (by decide)] at hrun
  obtain ⟨hstatus, hinode⟩ := Prod.mk.inj (Option.some.inj hrun)
  have hnode : inode'.node = node' := by rw [← hinode]
  rw [← hnode] at happend
  refine ⟨hstatus.symm, not_writeRight fun bytes hread heq => ?_⟩
  have hlt := read_of_appended h.isSection hname hnull habsent happend (by omega) hread
  rw [heq, length_written] at hlt
  omega

lemma zeros_of_writeRight (h : Without header items items' name inode.node)
    (hright : WriteRight inode₀ (Inode.mk inode.node (update inode.files name
      (some ((⟨type, []⟩ : AttributeFile).writeAt pos data)))) name old pos data) :
    ∀ byte ∈ old.take pos, byte = 0 := by
  have hread := hright.read 0 (pos + data.length) (by omega)
  have hsection : IsSection header items' (Inode.mk inode.node (update inode.files name
      (some ((⟨type, []⟩ : AttributeFile).writeAt pos data)))).node := h.isSection
  rw [readAttribute_eq hsection, attributeOf, findItem_of_absent h.absent] at hread
  simp only [update_self, Option.map_some, List.drop_zero] at hread
  rw [take_writeAt, ← length_written old pos data, List.take_length] at hread
  exact (written_nil_iff old pos data).1 (Option.some.inj hread)

lemma keepsData_of_writesRight (h : inode.Valid header items) (hname : name ≠ [])
    (hnull : 0 ∉ name)
    (hright : WritesRight allowed inode name (oldContents items inode name) type pos data) :
    KeepsData items name pos data.length inode.node.length := by
  obtain ⟨status, inode', hrun, hok⟩ := hright
  unfold KeepsData HasRoom
  rcases none_or_first (fun item : Item => item.name = name) items with
    habsent | ⟨pre, item, post, hitems, hitem, hpre⟩
  · rw [findItem_of_absent habsent, removeName_of_absent habsent]
    intro hroom
    by_contra hwrong
    cases hfile : inode.files name with
    | some file =>
      rw [writeAttribute_of_file allowed hfile] at hrun
      obtain ⟨hstatus, (hnot : ¬WriteRight inode inode' name (oldContents items inode name) pos data)⟩ :=
        not_writeRight_of_room allowed hname hnull (h.without habsent) hroom hwrong rfl hrun
      exact hnot (hok hstatus)
    | none =>
      obtain ⟨hstatus, (hnot : ¬WriteRight inode inode' name (oldContents items inode name) pos data)⟩ :=
        not_writeRight_of_added h hname hnull habsent hfile hroom hwrong hrun
      exact hnot (hok hstatus)
  · have hfind : findItem items name = some item := by
      rw [hitems]
      exact findItem_of_first hpre hitem
    have hnone : inode.files name = none := by
      rw [← hitem]
      exact h.small item (by rw [hitems]; simp)
    have hcontents : oldContents items inode name = item.data := by
      rw [oldContents, attributeOf, hfind, Option.getD_some]
    rw [hfind]
    by_cases hfits : Fits items name (pos + data.length) inode.node.length
    · exact Or.inl hfits
    right
    obtain ⟨node', hsection, hlen, (hwrite : inode.writeAttribute allowed name type pos data = _)⟩ :=
      writeAttribute_of_moved allowed h hnone hfind hfits
    have hwithout := h.without_removed hfind hsection
    have hmoved : (Inode.mk node' inode.files).files name = none := hnone
    have hcreate : allowed.create name = true := rfl
    rw [hwrite, createAttribute_of_none allowed hmoved, if_pos hcreate] at hrun
    simp only at hrun
    have hcreated : Without header items (removeName items name) name (Inode.mk node'
        (update inode.files name (some ⟨type, []⟩))).node := hwithout
    have hroom : ¬SmallData.start + (layout (removeName items name)).length +
        spaceNeeded name pos data.length ≤ inode.node.length := by
      intro hroom
      have hwrong : ¬(pos = 0 ∧ bytesFor name data.length < 2 ^ 32) := by
        rintro ⟨hpos, hsmall⟩
        subst hpos
        rw [spaceNeeded_of_lt (by rw [Nat.zero_add]; exact hsmall)] at hroom
        exact hfits hroom
      rw [← hlen] at hroom
      obtain ⟨hstatus, (hnot : ¬WriteRight inode inode' name (oldContents items inode name) pos data)⟩ :=
        not_writeRight_of_room allowed hname hnull hcreated hroom hwrong rfl hrun
      exact hnot (hok hstatus)
    refine ⟨hroom, fun hlt => ?_⟩
    rw [← hlen] at hroom
    rw [writeAttributeFile_of_full allowed hcreated (by simp only; omega), Inode.writeFile,
      if_pos ⟨rfl, hlt⟩] at hrun
    obtain ⟨hstatus, hinode⟩ := Prod.mk.inj (Option.some.inj hrun)
    have hwritten := hok hstatus.symm
    rw [← hinode, hcontents] at hwritten
    exact zeros_of_writeRight hcreated hwritten

end

/-- A write to an attribute is right if and only if it keeps the data that it has to. The name is not
empty, and not that of the node's name. -/
theorem writeAttribute_right (h : inode.Valid header items) (hname : name ≠ []) (hnull : 0 ∉ name)
    (htag : name ≠ [fileNameName]) (htype : type < 2 ^ 32) :
    (∀ io, WritesRight io inode name (oldContents items inode name) type pos data) ↔
      KeepsData items name pos data.length inode.node.length := by
  constructor
  · intro hright
    exact keepsData_of_writesRight h hname hnull (hright allowed)
  · intro hkeeps io
    exact writesRight_of_keepsData io h hname hnull htag htype hkeeps

lemma valid_crowdedInode : crowdedInode.Valid (List.replicate 232 0) [largeItem] where
  isSection := isSection_crowdedInode
  nodup := by simp
  small := fun _ _ => rfl
  tail := by
    intro item hitem _
    rw [List.mem_singleton.1 hitem]
    rfl

theorem writeAttribute_right_crowded :
    (∀ io, WritesRight io crowdedInode [98] (oldContents [largeItem] crowdedInode [98]) 7 0 [5]) ↔
      KeepsData [largeItem] [98] 0 1 crowdedInode.node.length :=
  writeAttribute_right valid_crowdedInode (by decide) (by decide) (by decide) (by decide)

/-- A byte that is written behind the beginning of a new attribute is not read again. -/
theorem not_writeAttribute_right : crowdedInode.Valid (List.replicate 232 0) [largeItem] ∧
    ∃ inode', crowdedInode.writeAttribute allowed [98] 7 1 [5] = some (.ok, inode') ∧
      inode'.readAttribute [98] 1 1 ≠ some [5] := by
  refine ⟨valid_crowdedInode, ?_⟩
  have hrun : (crowdedInode.writeAttribute allowed [98] 7 1 [5]).map (fun result =>
      (result.1, result.2.readAttribute [98] 1 1)) = some (.ok, some []) := by
    decide +kernel
  obtain ⟨⟨status, inode'⟩, hwrite, hresult⟩ := Option.map_eq_some_iff.1 hrun
  obtain ⟨hstatus, hread⟩ := Prod.mk.inj hresult
  have hok : status = .ok := hstatus
  rw [hok] at hwrite
  refine ⟨inode', hwrite, ?_⟩
  intro heq
  exact absurd (hread.symm.trans heq) (by decide)

end Haiku.Bfs
