import Haiku.Bfs.SmallDataTheorems

/-!
# The calls that change the small_data section
-/

namespace Haiku.Bfs

open Haiku.Lib

/-- `new` takes the place of the first item with its name, or follows the others. -/
def place (new : Item) : List Item → List Item
  | [] => [new]
  | item :: items => if item.name = new.name then new :: items else item :: place new items

def findItem (items : List Item) (name : List UInt8) : Option Item := items.find? (·.name = name)

/-- The items without the first one that has the name -/
def removeName (items : List Item) (name : List UInt8) : List Item := items.eraseP (·.name = name)

section

variable {items pre post kept : List Item} {new item moved : Item} {name wanted : List UInt8} {bytes : ℤ}

lemma place_of_absent (h : ∀ item ∈ items, item.name ≠ new.name) :
    place new items = items ++ [new] := by
  induction items with
  | nil => rfl
  | cons item items ih =>
    obtain ⟨hitem, hitems⟩ := List.forall_mem_cons.1 h
    rw [place, if_neg hitem, ih hitems, List.cons_append]

lemma place_of_first (hpre : ∀ item ∈ pre, item.name ≠ new.name) (hitem : item.name = new.name) :
    place new (pre ++ item :: post) = pre ++ new :: post := by
  induction pre with
  | nil => exact if_pos hitem
  | cons first pre ih =>
    obtain ⟨hfirst, hrest⟩ := List.forall_mem_cons.1 hpre
    rw [List.cons_append, place, if_neg hfirst, ih hrest, List.cons_append]

lemma findItem_of_absent (h : ∀ item ∈ items, item.name ≠ name) : findItem items name = none := by
  apply List.find?_eq_none.2
  intro item hitem
  simp [h item hitem]

lemma findItem_of_first (hpre : ∀ item ∈ pre, item.name ≠ name) (hitem : item.name = name) :
    findItem (pre ++ item :: post) name = some item := by
  apply List.find?_eq_some_iff_append.2
  refine ⟨by simp [hitem], pre, post, rfl, ?_⟩
  intro other hother
  simp [hpre other hother]

lemma removeName_of_absent (h : ∀ item ∈ items, item.name ≠ name) :
    removeName items name = items := by
  apply List.eraseP_of_forall_not
  intro item hitem
  simp [h item hitem]

lemma removeName_of_first (hpre : ∀ item ∈ pre, item.name ≠ name) (hitem : item.name = name) :
    removeName (pre ++ item :: post) name = pre ++ post := by
  unfold removeName
  rw [List.eraseP_append_right _ (by intro other hother; simp [hpre other hother]),
    List.eraseP_cons_of_pos (by simp [hitem])]

lemma Evicts.findItem_eq (h : Evicts items wanted bytes moved kept) :
    findItem kept wanted = findItem items wanted := by
  obtain ⟨pre, post, hitems, hkept, _⟩ := h.split
  have hname : moved.name ≠ wanted := fun heq => h.large.1 (Or.inr heq)
  rw [hitems, hkept]
  unfold findItem
  rw [List.find?_append, List.find?_append, List.find?_cons_of_neg (by simp [hname])]

end

/-! ## The parts of the calls -/

def bytesFor (name : List UInt8) (length : ℕ) : ℕ := 12 + name.length + length

lemma spaceNeeded_of_lt {name : List UInt8} {pos length : ℕ}
    (h : bytesFor name (pos + length) < 2 ^ 32) :
    spaceNeeded name pos length = bytesFor name (pos + length) := by
  unfold spaceNeeded bytesFor at *
  omega

section

variable {header node name wanted data : List UInt8} {items pre post : List Item} {item : Item}
  {type pos : ℕ}

lemma IsSection.length_eq (h : IsSection header items node) {rest : List UInt8}
    (hnode : node = header ++ layout items ++ rest) :
    node.length = SmallData.start + (layout items).length + rest.length := by
  rw [hnode, List.length_append, List.length_append, h.header_length]

lemma IsSection.header_pos (h : IsSection header items node) : 0 < header.length := by
  rw [h.header_length]
  decide

lemma IsSection.split (h : IsSection header (pre ++ item :: post) node) :
    ∃ b, node = (header ++ layout pre) ++ item.bytes ++ b := by
  obtain ⟨rest, hnode, _⟩ := h.eq
  refine ⟨layout post ++ rest, ?_⟩
  rw [hnode, layout_append, ← append_layout_cons]
  simp only [List.append_assoc]

lemma IsSection.find_of_absent (h : IsSection header items node)
    (habsent : ∀ item ∈ items, item.name ≠ wanted) :
    SmallData.find node wanted = (header ++ layout items).length ∧
      SmallData.isLast node (SmallData.find node wanted) = true := by
  obtain ⟨rest, hnode, hended⟩ := h.eq
  have hfind := SmallData.find_of_absent hnode h.header_length hended habsent
  rw [hfind, hnode]
  exact ⟨rfl, SmallData.isLast_ended _ hended⟩

lemma IsSection.find_of_first (h : IsSection header (pre ++ item :: post) node)
    (hpre : ∀ item ∈ pre, item.name ≠ wanted) (hname : item.name = wanted) :
    SmallData.find node wanted = (header ++ layout pre).length ∧
      SmallData.isLast node (SmallData.find node wanted) = false := by
  obtain ⟨rest, hnode, hended⟩ := h.eq
  have hfind := SmallData.find_of_first hnode h.header_length hended hpre hname
  obtain ⟨b, hsplit⟩ := h.split
  rw [hfind, hsplit]
  exact ⟨rfl, SmallData.isLast_at _ _ item⟩

lemma IsSection.last_eq (h : IsSection header (pre ++ post) node) :
    SmallData.last node (header ++ layout pre).length =
      (header ++ layout (pre ++ post)).length := by
  obtain ⟨rest, hnode, hended⟩ := h.eq
  have hpos := h.header_pos
  rw [layout_append, ← List.append_assoc] at hnode ⊢
  exact SmallData.last_eq hnode hended (by rw [List.length_append]; omega)

lemma IsSection.last_start (h : IsSection header items node) :
    SmallData.last node SmallData.start = (header ++ layout items).length := by
  obtain ⟨rest, hnode, hended⟩ := h.eq
  rw [← h.header_length]
  exact SmallData.last_eq hnode hended h.header_pos

lemma removeItem_section (h : IsSection header (pre ++ item :: post) node) :
    ∃ node', removeItem node (header ++ layout pre).length = some (.ok, node') ∧
      IsSection header (pre ++ post) node' ∧ node'.length = node.length := by
  obtain ⟨rest, hnode, hended⟩ := h.eq
  have hlen := h.length_eq hnode
  obtain ⟨rest', hremove, hended', hrest'⟩ := removeItem_eq (a := header ++ layout pre) item post
    (by have := h.header_pos; rw [List.length_append]; omega) hended
  have hlen' : (header ++ layout pre ++ layout post ++ rest').length = node.length := by
    rw [hlen]
    simp only [List.length_append, layout_append, layout_cons, Item.length_bytes, h.header_length]
    omega
  have hsplit : node = header ++ layout pre ++ item.bytes ++ layout post ++ rest := by
    rw [hnode]
    simp only [layout_append, layout_cons, List.append_assoc]
  rw [← hsplit] at hremove
  refine ⟨_, hremove, ⟨h.header_length, by rw [hlen']; exact h.node_le, rest', ?_, hended'⟩, hlen'⟩
  rw [layout_append, ← List.append_assoc]

lemma replaceItem_section (h : IsSection header (pre ++ item :: post) node)
    (htype : type < 2 ^ 32) (hlen : pos + data.length < 2 ^ 16)
    (hfits : SmallData.start + (layout (pre ++ post)).length +
      bytesFor item.name (pos + data.length) ≤ node.length) :
    ∃ node', replaceItem node (header ++ layout pre).length
        (header ++ layout (pre ++ item :: post)).length (bytesFor item.name (pos + data.length))
        type pos data = some node' ∧
      IsSection header (pre ++ item.write type pos data htype hlen :: post) node' ∧
      node'.length = node.length := by
  obtain ⟨rest, hnode, hended⟩ := h.eq
  have hnodeLen := h.length_eq hnode
  simp only [layout_append, layout_cons, List.length_append, Item.length_bytes] at hfits hnodeLen
  obtain ⟨rest', hreplace, hended', hrest'⟩ := replaceItem_eq (a := header ++ layout pre) item post
    hended htype hlen (by unfold bytesFor at hfits; omega)
  have hsplit : node = header ++ layout pre ++ item.bytes ++ layout post ++ rest := by
    rw [hnode]
    simp only [layout_append, layout_cons, List.append_assoc]
  have hlast : header ++ layout pre ++ item.bytes ++ layout post =
      header ++ layout (pre ++ item :: post) := by
    simp only [layout_append, layout_cons, List.append_assoc]
  have hsize : (item.write type pos data htype hlen).size =
      12 + item.name.length + (pos + data.length) := by
    show 8 + item.name.length + 3 + (written item.data pos data).length + 1 = _
    rw [length_written]
    omega
  have hlen' : (header ++ layout pre ++ (item.write type pos data htype hlen).bytes ++
      layout post ++ rest').length = node.length := by
    simp only [List.length_append, Item.length_bytes, hsize, h.header_length]
    omega
  rw [← hsplit, hlast] at hreplace
  refine ⟨_, hreplace, ⟨h.header_length, by rw [hlen']; exact h.node_le, rest', ?_, hended'⟩, hlen'⟩
  simp only [layout_append, layout_cons, List.append_assoc]

lemma appendItem_section (h : IsSection header items node) (htype : type < 2 ^ 32)
    (hname : name ≠ []) (hnull : 0 ∉ name)
    (hfits : SmallData.start + (layout items).length + bytesFor name (pos + data.length) ≤
      node.length) :
    ∃ node' new, appendItem node (header ++ layout items).length
        (bytesFor name (pos + data.length)) name type pos data = some node' ∧
      IsSection header (items ++ [new]) node' ∧ node'.length = node.length ∧ new.name = name ∧
      new.type = type ∧ new.data = (List.replicate pos 0 ++ data).take data.length ∧
      (pos = 0 → new.tail = 0) := by
  obtain ⟨rest, hnode, hended⟩ := h.eq
  have hlen := h.length_eq hnode
  have hle := h.node_le
  have hstart : SmallData.start = 232 := rfl
  obtain ⟨new, rest', happend, hended', hsize, htype', hname', hdata, htail⟩ :=
    appendItem_eq (header ++ layout items) rest data pos htype hname hnull
      (by unfold bytesFor at hfits; omega) (by omega)
  have hlen' : (header ++ layout items ++ new.bytes ++ rest').length = node.length := by
    simp only [List.length_append, Item.length_bytes, h.header_length]
    omega
  rw [← hnode] at happend
  refine ⟨_, new, happend, ⟨h.header_length, by rw [hlen']; exact h.node_le, rest', ?_, hended'⟩,
    hlen', hname', htype', hdata, htail⟩
  simp only [layout_append, layout_cons, layout_nil, List.append_nil, List.append_assoc]

lemma appendItem_section_nil (type : ℕ) (h : IsSection header items node)
    (hfits : SmallData.start + (layout items).length + bytesFor [] (pos + data.length) ≤
      node.length) :
    ∃ node', appendItem node (header ++ layout items).length (bytesFor [] (pos + data.length)) []
        type pos data = some node' ∧
      IsSection header items node' ∧ node'.length = node.length := by
  obtain ⟨rest, hnode, _⟩ := h.eq
  have hlen := h.length_eq hnode
  have hle := h.node_le
  have hstart : SmallData.start = 232 := rfl
  have hbytes : bytesFor [] (pos + data.length) = 12 + 0 + (pos + data.length) := rfl
  rw [hbytes] at hfits ⊢
  set k := 12 + 0 + (pos + data.length) with hk
  have hset := memset_next (header ++ layout items) rest (0 : UInt8) (k := k) (by omega)
  have hwrite : writeItem (header ++ layout items ++ (List.replicate k 0 ++ rest.drop k))
      (header ++ layout items).length [] type pos data = _ :=
    writeItem_eq (header ++ layout items) (rest.drop k) type pos (by decide) hk
  set b := [0, 0, 0] ++ (List.replicate pos 0 ++ data ++ [0]) ++ rest.drop k with hb
  have hnode' : header ++ layout items ++ fields type ([] : List UInt8).length data.length ++
      ([] ++ [0, 0, 0]) ++ (List.replicate pos 0 ++ data ++ [0]) ++ rest.drop k =
        header ++ layout items ++ fields type 0 data.length ++ b := by
    simp only [hb, List.append_assoc, List.nil_append, List.length_nil]
  have hblen : b.length = k - 8 + (rest.length - k) := by
    simp only [hb, List.length_append, List.length_replicate, List.length_drop, List.length_cons,
      List.length_nil]
    omega
  -- the name size stays zero, whatever is written behind the fields
  have hsection : ∀ c, c.length = b.length →
      IsSection header items (header ++ layout items ++ fields type 0 data.length ++ c) ∧
      (header ++ layout items ++ fields type 0 data.length ++ c).length = node.length := by
    intro c hc
    have hlen' :
        (header ++ layout items ++ fields type 0 data.length ++ c).length = node.length := by
      simp only [List.length_append, length_fields, h.header_length, hc, hblen]
      omega
    refine ⟨⟨h.header_length, by rw [hlen']; exact h.node_le, fields type 0 data.length ++ c, ?_, ?_⟩,
      hlen'⟩
    · rw [List.append_assoc _ (fields type 0 data.length)]
    · apply (SmallData.isLast_append (header ++ layout items) _).1
      rw [← List.append_assoc, SmallData.isLast, SmallData.nameSize_fields]
      exact decide_eq_true (Or.inr rfl)
  rw [← hnode] at hset
  unfold appendItem
  rw [hset, Option.bind_eq_bind, Option.bind_some, hwrite, Option.bind_some, hnode']
  simp only
  cases SmallData.isLast (header ++ layout items ++ fields type 0 data.length ++ b)
    (SmallData.next (header ++ layout items ++ fields type 0 data.length ++ b)
      (header ++ layout items).length) with
  | true => exact ⟨_, rfl, hsection b rfl⟩
  | false =>
    have hnext : SmallData.next (header ++ layout items ++ fields type 0 data.length ++ b)
        (header ++ layout items).length = (header ++ layout items).length + (12 + data.length) := by
      rw [SmallData.next, SmallData.size, SmallData.nameSize_fields, SmallData.dataSize_fields,
        Nat.mod_eq_of_lt (by omega : data.length < 2 ^ 16)]
      omega
    have hbLen := (hsection b rfl).2
    rw [hnext, if_neg Bool.false_ne_true, hbLen]
    have hpos : (header ++ layout items).length + (12 + data.length) ≤ node.length := by
      rw [List.length_append, h.header_length]
      omega
    have hin : memset (header ++ layout items ++ fields type 0 data.length ++ b)
        ((header ++ layout items).length + (12 + data.length)) 0
        (node.length - ((header ++ layout items).length + (12 + data.length))) = _ :=
      memcpy_eq (by rw [hbLen, List.length_replicate]; omega)
    obtain ⟨c, hc, hcLen⟩ := memcpy_behind hin
      (by rw [List.length_append, length_fields]; omega)
    rw [hc] at hin
    exact ⟨_, hin, hsection c hcLen⟩

lemma makeSpace_section (io : AttributeIo) (inode : Inode) (wanted : List UInt8) {bytes : ℤ}
    (hbytes : 0 < bytes)
    (h : IsSection header items inode.node) :
    (∃ files, inode.makeSpace io wanted (bytes.toNat + 1) bytes =
      some (.error, { inode with files })) ∨
    ∃ moved kept node', Evicts items wanted bytes moved kept ∧ IsSection header kept node' ∧
      node'.length = inode.node.length ∧
      inode.makeSpace io wanted (bytes.toNat + 1) bytes = some (.ok, {
        node := node'
        files := Function.update inode.files moved.name
          (some (((inode.files moved.name).getD ⟨moved.type, []⟩).writeAt 0 moved.data)) }) := by
  obtain ⟨rest, hnode, hended⟩ := h.eq
  have hlen := h.length_eq hnode
  rcases none_or_first (fun item : Item => item.IsLarge wanted bytes) items with
    hnone | ⟨pre, moved, post, hitems, hlarge, hpre⟩
  · left
    exact ⟨inode.files, makeSpace_of_none io inode _ h.header_length hended hnode hbytes hnone⟩
  · obtain ⟨rounds, hrounds⟩ : ∃ rounds, bytes.toNat + 1 = rounds + 2 :=
      ⟨bytes.toNat - 1, by omega⟩
    rw [hitems] at hnode
    rw [hrounds]
    apply (makeSpace_of_first io inode rounds moved post h.header_length hended hnode hbytes hlarge
      hpre).imp_right
    rintro ⟨rest', hspace, hended', hrest'⟩
    have hlen' : (header ++ layout (pre ++ post) ++ rest').length = inode.node.length := by
      rw [hlen, hitems]
      simp only [List.length_append, layout_append, layout_cons, Item.length_bytes, h.header_length]
      omega
    exact ⟨moved, pre ++ post, _, ⟨hlarge, pre, post, hitems, rfl, hpre⟩,
      ⟨h.header_length, by rw [hlen']; exact h.node_le, rest', rfl, hended'⟩, hlen', hspace⟩

end

/-! ## Adding an item -/

/-- The data of the item after `data` has been stored in it -/
def storedData (items : List Item) (name : List UInt8) (pos : ℕ) (data : List UInt8) : List UInt8 :=
  match findItem items name with
  | some old => written old.data pos data
  | none => (List.replicate pos 0 ++ data).take data.length

/-- What a section with `items` becomes when `data` is stored under `name`. Without a name, nothing is
added, as a name without a length ends the section. -/
structure Stored (header : List UInt8) (items : List Item) (name : List UInt8) (type pos : ℕ)
    (data node : List UInt8) : Prop where
  nameless : name = [] → IsSection header items node
  named : name ≠ [] → ∃ new, IsSection header (place new items) node ∧ new.name = name ∧
    new.type = type ∧ new.data = storedData items name pos data ∧
    (pos = 0 ∨ (findItem items name).isSome → new.tail = 0)

/-- The item fits in an inode of the size `size`. -/
def Fits (items : List Item) (name : List UInt8) (length size : ℕ) : Prop :=
  SmallData.start + (layout (removeName items name)).length + bytesFor name length ≤ size

section

variable {header node name data : List UInt8} {items pre post : List Item} {item : Item}
  {type pos : ℕ}

lemma appendItem_stored (h : IsSection header items node) (htype : type < 2 ^ 32)
    (hnull : 0 ∉ name) (habsent : ∀ item ∈ items, item.name ≠ name)
    (hfits : SmallData.start + (layout items).length + bytesFor name (pos + data.length) ≤
      node.length) :
    ∃ node', appendItem node (header ++ layout items).length
        (bytesFor name (pos + data.length)) name type pos data = some node' ∧
      Stored header items name type pos data node' ∧ node'.length = node.length := by
  by_cases hname : name = []
  · subst hname
    obtain ⟨node', happend, hsection, hlen⟩ := appendItem_section_nil type h hfits
    exact ⟨node', happend, ⟨fun _ => hsection, fun hne => absurd rfl hne⟩, hlen⟩
  · obtain ⟨node', new, happend, hsection, hlen, hname', htype', hdata, htail⟩ :=
      appendItem_section h htype hname hnull hfits
    refine ⟨node', happend, ⟨fun heq => absurd heq hname, fun _ => ⟨new, ?_, hname', htype', ?_, ?_⟩⟩,
      hlen⟩
    · rw [place_of_absent (by rw [hname']; exact habsent)]
      exact hsection
    · rw [storedData, findItem_of_absent habsent, hdata]
    · rw [findItem_of_absent habsent]
      intro hor
      apply htail
      apply hor.resolve_right
      simp

lemma replaceItem_stored (h : IsSection header (pre ++ item :: post) node)
    (htype : type < 2 ^ 32) (hpre : ∀ item ∈ pre, item.name ≠ name) (hname : item.name = name)
    (hfits : SmallData.start + (layout (pre ++ post)).length +
      bytesFor name (pos + data.length) ≤ node.length) :
    ∃ node', replaceItem node (header ++ layout pre).length
        (header ++ layout (pre ++ item :: post)).length (bytesFor name (pos + data.length))
        type pos data = some node' ∧
      Stored header (pre ++ item :: post) name type pos data node' ∧ node'.length = node.length := by
  subst hname
  have hle := h.node_le
  have hstart : SmallData.start = 232 := rfl
  have hlength : pos + data.length < 2 ^ 16 := by
    unfold bytesFor at hfits
    omega
  obtain ⟨node', hreplace, hsection, hlen⟩ := replaceItem_section h htype hlength hfits
  refine ⟨node', hreplace, ⟨fun hnil => absurd hnil item.name_ne, fun _ => ?_⟩, hlen⟩
  refine ⟨item.write type pos data htype hlength, ?_, rfl, rfl, ?_, fun _ => rfl⟩
  · have hplace : place (item.write type pos data htype hlength) (pre ++ item :: post) = _ :=
      place_of_first hpre rfl
    rw [hplace]
    exact hsection
  · rw [storedData, findItem_of_first hpre rfl]
    rfl

end

section

variable {header name data : List UInt8} {items pre post : List Item} {item : Item}
  {type pos : ℕ} {force : Bool} (io : AttributeIo) (inode : Inode)

section

variable (h : IsSection header (pre ++ item :: post) inode.node)
include h

lemma IsSection.dataSize_eq :
    SmallData.dataSize inode.node (header ++ layout pre).length = item.data.length := by
  obtain ⟨b, hsplit⟩ := h.split
  rw [hsplit]
  exact SmallData.dataSize_at _ _ item

section

variable (hpre : ∀ item ∈ pre, item.name ≠ name)
include hpre

lemma IsSection.fits_iff (hname : item.name = name) (length : ℕ) :
    (header ++ layout (pre ++ item :: post)).length + length ≤
        inode.node.length + item.data.length ↔
      Fits (pre ++ item :: post) name length inode.node.length := by
  unfold Fits bytesFor
  rw [removeName_of_first hpre hname, ← hname]
  simp only [layout_append, layout_cons, List.length_append, Item.length_bytes, Item.size,
    h.header_length]
  omega

lemma IsSection.fits_of_lt (hname : item.name = name) {length : ℕ}
    (hlt : length ≤ item.data.length) :
    Fits (pre ++ item :: post) name length inode.node.length := by
  obtain ⟨rest, hnode, _⟩ := h.eq
  have hlen := h.length_eq hnode
  apply (h.fits_iff inode hpre hname length).1
  rw [List.length_append, h.header_length]
  omega

lemma replaceSmallData_of_fits (hname : item.name = name)
    (hfits : Fits (pre ++ item :: post) name (pos + data.length) inode.node.length) :
    inode.replaceSmallData io name type pos data force (header ++ layout pre).length =
      (replaceItem inode.node (header ++ layout pre).length
        (header ++ layout (pre ++ item :: post)).length (spaceNeeded name pos data.length) type pos
        data).map fun node => (.ok, { inode with node }) := by
  have hcheck := (h.fits_iff inode hpre hname (pos + data.length)).2 hfits
  unfold Inode.replaceSmallData
  rw [h.last_eq, h.dataSize_eq inode]
  simp only
  have hforce : ¬(force ∧ ¬(header ++ layout (pre ++ item :: post)).length +
      (pos + data.length) ≤ inode.node.length + item.data.length) := fun hand => hand.2 hcheck
  rw [if_pos (Or.inr (Or.inr hcheck)), if_neg hforce, Option.map_eq_bind]
  rfl

end

end

lemma addSmallData_of_absent (h : IsSection header items inode.node)
    (habsent : ∀ item ∈ items, item.name ≠ name)
    (hspace : spaceNeeded name pos data.length ≤ inode.node.length - SmallData.start) :
    inode.addSmallData io name type pos data force =
      inode.appendSmallData io name type pos data force (header ++ layout items).length := by
  obtain ⟨hfind, hlast⟩ := h.find_of_absent habsent
  rw [Inode.addSmallData, if_neg (by omega)]
  simp only
  rw [hlast, if_pos rfl, hfind]

lemma addSmallData_of_first (h : IsSection header (pre ++ item :: post) inode.node)
    (hpre : ∀ item ∈ pre, item.name ≠ name) (hname : item.name = name)
    (hspace : spaceNeeded name pos data.length ≤ inode.node.length - SmallData.start) :
    inode.addSmallData io name type pos data force =
      inode.replaceSmallData io name type pos data force (header ++ layout pre).length := by
  obtain ⟨hfind, hlast⟩ := h.find_of_first hpre hname
  rw [Inode.addSmallData, if_neg (by omega)]
  simp only
  rw [hlast, if_neg Bool.false_ne_true, hfind]

lemma addSmallData_of_fits (h : IsSection header items inode.node) (htype : type < 2 ^ 32)
    (hnull : 0 ∉ name) (hfits : Fits items name (pos + data.length) inode.node.length) :
    ∃ node', inode.addSmallData io name type pos data force =
        some (.ok, { inode with node := node' }) ∧
      Stored header items name type pos data node' ∧ node'.length = inode.node.length := by
  have hle := h.node_le
  have hsize : bytesFor name (pos + data.length) ≤ inode.node.length - SmallData.start := by
    unfold Fits at hfits
    omega
  have hspace : spaceNeeded name pos data.length = bytesFor name (pos + data.length) := by
    apply spaceNeeded_of_lt
    omega
  rcases none_or_first (fun item : Item => item.name = name) items with
    habsent | ⟨pre, item, post, hitems, hname, hpre⟩
  · rw [addSmallData_of_absent io inode h habsent (by rw [hspace]; exact hsize)]
    rw [Fits, removeName_of_absent habsent] at hfits
    obtain ⟨node', happend, hstored, hlen⟩ := appendItem_stored h htype hnull habsent hfits
    refine ⟨node', ?_, hstored, hlen⟩
    unfold Inode.appendSmallData
    simp only [hspace]
    rw [if_neg (by rw [List.length_append, h.header_length]; omega), happend]
    rfl
  · subst hitems
    rw [addSmallData_of_first io inode h hpre hname (by rw [hspace]; exact hsize),
      replaceSmallData_of_fits io inode h hpre hname hfits, hspace]
    rw [Fits, removeName_of_first hpre hname] at hfits
    obtain ⟨node', hreplace, hstored, hlen⟩ := replaceItem_stored h htype hpre hname hfits
    refine ⟨node', ?_, hstored, hlen⟩
    rw [hreplace]
    rfl

lemma addSmallData_of_first_full (h : IsSection header (pre ++ item :: post) inode.node)
    (hpre : ∀ item ∈ pre, item.name ≠ name) (hname : item.name = name)
    (hfull : ¬Fits (pre ++ item :: post) name (pos + data.length) inode.node.length) :
    inode.addSmallData io name type pos data false = some (.deviceFull, inode) := by
  by_cases hspace : spaceNeeded name pos data.length ≤ inode.node.length - SmallData.start
  · rw [addSmallData_of_first io inode h hpre hname hspace]
    have hcheck := mt (h.fits_iff inode hpre hname (pos + data.length)).1 hfull
    have hlt := mt (h.fits_of_lt inode hpre hname) hfull
    unfold Inode.replaceSmallData
    rw [h.last_eq, h.dataSize_eq inode]
    simp only
    rw [if_neg]
    intro hor
    apply hor.elim
    · omega
    · intro hor
      exact hor.elim Bool.false_ne_true hcheck
  · rw [Inode.addSmallData, if_pos (by omega)]

lemma addSmallData_of_absent_full (h : IsSection header items inode.node)
    (habsent : ∀ item ∈ items, item.name ≠ name)
    (hfull : inode.node.length <
      SmallData.start + (layout items).length + spaceNeeded name pos data.length) :
    inode.addSmallData io name type pos data false = some (.deviceFull, inode) := by
  by_cases hspace : spaceNeeded name pos data.length ≤ inode.node.length - SmallData.start
  · rw [addSmallData_of_absent io inode h habsent hspace]
    unfold Inode.appendSmallData
    simp only
    rw [if_pos (by rw [List.length_append, h.header_length]; omega), Bool.not_false, if_pos rfl]
  · rw [Inode.addSmallData, if_pos (by omega)]

/-! ### Forced calls -/

/-- The bytes that a forced call asks for, when the item does not fit. For an attribute that is in the
section, what is free there counts. -/
def bytesMissing (items : List Item) (name : List UInt8) (length size : ℕ) : ℤ :=
  match findItem items name with
  | some old => length - old.data.length - (size - (SmallData.start + (layout items).length : ℕ))
  | none => bytesFor name length

/-- The attribute files, after an item became one -/
def filesWith (inode : Inode) (moved : Item) : List UInt8 → Option AttributeFile :=
  Function.update inode.files moved.name
    (some (((inode.files moved.name).getD ⟨moved.type, []⟩).writeAt 0 moved.data))

lemma Evicts.length_eq {wanted : List UInt8} {bytes : ℤ} {moved : Item} {kept : List Item}
    (h : Evicts items wanted bytes moved kept) :
    (layout items).length = (layout kept).length + moved.size := by
  obtain ⟨pre, post, hitems, hkept, _⟩ := h.split
  rw [hitems, hkept]
  simp only [layout_append, layout_cons, List.length_append, Item.length_bytes]
  omega

lemma Evicts.mem {wanted : List UInt8} {bytes : ℤ} {moved : Item} {kept : List Item}
    (h : Evicts items wanted bytes moved kept) : ∀ item ∈ kept, item ∈ items := by
  obtain ⟨pre, post, hitems, hkept, _⟩ := h.split
  intro item hitem
  rw [hkept] at hitem
  rw [hitems]
  apply List.mem_append.2
  exact (List.mem_append.1 hitem).imp_right fun hpost => List.mem_cons_of_mem moved hpost

lemma appendSmallData_forced (h : IsSection header items inode.node) (htype : type < 2 ^ 32)
    (hnull : 0 ∉ name) (habsent : ∀ item ∈ items, item.name ≠ name)
    (hspace : spaceNeeded name pos data.length = bytesFor name (pos + data.length))
    (hle : bytesFor name (pos + data.length) ≤ inode.node.length)
    (hfull : ¬Fits items name (pos + data.length) inode.node.length) :
    (∃ files, inode.appendSmallData io name type pos data true (header ++ layout items).length =
      some (.error, { inode with files })) ∨
    ∃ moved kept node', Evicts items name (bytesFor name (pos + data.length)) moved kept ∧
      inode.appendSmallData io name type pos data true (header ++ layout items).length =
        some (.ok, { node := node', files := filesWith inode moved }) ∧
      Stored header kept name type pos data node' ∧ node'.length = inode.node.length := by
  have hnode := h.node_le
  have hint : int32 (bytesFor name (pos + data.length)) = bytesFor name (pos + data.length) :=
    int32_of_lt (by omega)
  have hpos : (0 : ℤ) < bytesFor name (pos + data.length) := by
    unfold bytesFor
    omega
  rw [Fits, removeName_of_absent habsent] at hfull
  unfold Inode.appendSmallData
  simp only [hspace, hint]
  rw [if_pos (by rw [List.length_append, h.header_length]; omega), Bool.not_true,
    if_neg Bool.false_ne_true]
  rcases makeSpace_section io inode name hpos h with
    ⟨files, hfailed⟩ | ⟨moved, kept, node', hevicts, hsection, hlen, hmade⟩
  · left
    rw [hfailed]
    exact ⟨files, rfl⟩
  · right
    have hlarge := hevicts.large.2
    have hlength := hevicts.length_eq
    obtain ⟨rest, hrest, _⟩ := h.eq
    have hsum := h.length_eq hrest
    have habsent' : ∀ item ∈ kept, item.name ≠ name :=
      fun item hitem => habsent item (hevicts.mem item hitem)
    have hfits : SmallData.start + (layout kept).length + bytesFor name (pos + data.length) ≤
        node'.length := by
      omega
    obtain ⟨node'', happend, hstored, hlen'⟩ := appendItem_stored hsection htype hnull habsent' hfits
    refine ⟨moved, kept, node'', hevicts, ?_, hstored, by rw [hlen', hlen]⟩
    rw [hmade]
    simp only [Option.bind_eq_bind, Option.bind_some]
    rw [if_neg (by simp), hsection.last_start, happend]
    rfl

lemma replaceSmallData_forced (h : IsSection header (pre ++ item :: post) inode.node)
    (htype : type < 2 ^ 32) (hpre : ∀ item ∈ pre, item.name ≠ name) (hname : item.name = name)
    (hspace : spaceNeeded name pos data.length = bytesFor name (pos + data.length))
    (hle : bytesFor name (pos + data.length) ≤ inode.node.length)
    (hfull : ¬Fits (pre ++ item :: post) name (pos + data.length) inode.node.length) :
    (∃ files, inode.replaceSmallData io name type pos data true (header ++ layout pre).length =
      some (.error, { inode with files })) ∨
    ∃ moved kept node', Evicts (pre ++ item :: post) name
        (bytesMissing (pre ++ item :: post) name (pos + data.length) inode.node.length) moved kept ∧
      inode.replaceSmallData io name type pos data true (header ++ layout pre).length =
        some (.ok, { node := node', files := filesWith inode moved }) ∧
      Stored header kept name type pos data node' ∧ node'.length = inode.node.length := by
  have hnode := h.node_le
  have hcheck := mt (h.fits_iff inode hpre hname (pos + data.length)).1 hfull
  have hlt := mt (h.fits_of_lt inode hpre hname) hfull
  have hlast : (header ++ layout (pre ++ item :: post)).length =
      SmallData.start + (layout (pre ++ item :: post)).length := by
    rw [List.length_append, h.header_length]
  obtain ⟨rest, hrest, _⟩ := h.eq
  have hsum := h.length_eq hrest
  set missing := bytesMissing (pre ++ item :: post) name (pos + data.length) inode.node.length
    with hmissing
  have hmissing' : missing = (pos + data.length : ℕ) - item.data.length -
      (inode.node.length - (header ++ layout (pre ++ item :: post)).length) := by
    rw [hmissing, bytesMissing, findItem_of_first hpre hname, hlast]
  have hint : int32 missing = missing := by
    obtain ⟨n, hn⟩ := Int.eq_ofNat_of_zero_le (by omega : 0 ≤ missing)
    rw [hn]
    apply int32_of_lt
    unfold bytesFor at hle
    omega
  unfold Inode.replaceSmallData
  rw [h.last_eq, h.dataSize_eq inode]
  simp only [← hmissing', hint, hspace]
  have hforced : (True ∧ ¬(header ++ layout (pre ++ item :: post)).length +
      (pos + data.length) ≤ inode.node.length + item.data.length) := ⟨trivial, hcheck⟩
  rw [if_pos (Or.inr (Or.inl trivial)), if_pos hforced]
  rcases makeSpace_section io inode name (by omega : 0 < missing) h with
    ⟨files, hfailed⟩ | ⟨moved, kept, node', hevicts, hsection, hlen, hmade⟩
  · left
    rw [hfailed]
    exact ⟨files, rfl⟩
  · right
    have hlarge := hevicts.large.2
    have hlength := hevicts.length_eq
    -- the item is still there, and still the first one with the name
    have hfind := hevicts.findItem_eq
    rw [findItem_of_first hpre hname] at hfind
    rcases none_or_first (fun item : Item => item.name = name) kept with
      habsent | ⟨pre', item', post', hkept, hname', hpre'⟩
    · rw [findItem_of_absent habsent] at hfind
      exact absurd hfind (by simp)
    · rw [hkept, findItem_of_first hpre' hname'] at hfind
      have hsame := Option.some.inj hfind
      subst hsame
      rw [hkept] at hsection hlength
      have hkeptLen : (layout (pre' ++ item' :: post')).length =
          (layout (pre' ++ post')).length + item'.size := by
        simp only [layout_append, layout_cons, List.length_append, Item.length_bytes]
        omega
      have hsize : item'.size + (pos + data.length) =
          bytesFor name (pos + data.length) + item'.data.length := by
        rw [Item.size, bytesFor, hname']
        omega
      have hfits : SmallData.start + (layout (pre' ++ post')).length +
          bytesFor name (pos + data.length) ≤ node'.length := by
        omega
      obtain ⟨node'', hreplace, hstored, hlen'⟩ :=
        replaceItem_stored hsection htype hpre' hname' hfits
      obtain ⟨hfound, _⟩ := hsection.find_of_first hpre' hname'
      refine ⟨moved, pre' ++ item' :: post', node'', hkept ▸ hevicts, ?_, hstored,
        by rw [hlen', hlen]⟩
      rw [hmade]
      simp only [Option.bind_eq_bind, Option.bind_some]
      rw [if_neg (by simp), hfound, hsection.last_eq, hreplace]
      rfl

end

end Haiku.Bfs
