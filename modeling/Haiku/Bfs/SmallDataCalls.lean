import Haiku.Bfs.AddSmallData

/-!
# The small_data section stays well formed

What a call of `_AddSmallData()` or `_RemoveSmallData()` does with a section: the named item is added,
replaced or removed, and the others stay as they are. Only a forced call whose item does not fit
moves one of them to an attribute file first.
-/

namespace Haiku.Bfs

open Haiku.Lib

def oldData (items : List Item) (name : List UInt8) : List UInt8 :=
  ((findItem items name).map Item.data).getD []

/-- Which items are kept for a new item: all of them, or those that `_MakeSpaceForSmallData()`
leaves. -/
def Keeps (items : List Item) (inode : Inode) (name : List UInt8) (length : ℕ) (force : Bool)
    (kept : List Item) (inode' : Inode) : Prop :=
  kept = items ∧ inode'.files = inode.files ∨
    force = true ∧ ¬Fits items name length inode.node.length ∧ ∃ moved,
      Evicts items name (bytesMissing items name length inode.node.length) moved kept ∧
      inode'.files = filesWith inode moved

/-- What `_AddSmallData()` promises -/
structure Added (header : List UInt8) (items : List Item) (inode : Inode) (name : List UInt8)
    (type pos : ℕ) (data : List UInt8) (force : Bool) (status : AttributeStatus)
    (inode' : Inode) : Prop where
  length_eq : inode'.node.length = inode.node.length
  failed : status ≠ .ok → inode'.node = inode.node
  fits : Fits items name (pos + data.length) inode.node.length → status = .ok
  full : ¬Fits items name (pos + data.length) inode.node.length → force = false →
    status = .deviceFull
  added : status = .ok → ∃ kept, Keeps items inode name (pos + data.length) force kept inode' ∧
    (name = [] → IsSection header kept inode'.node) ∧
    (name ≠ [] → ∃ new, IsSection header (place new kept) inode'.node ∧ new.name = name ∧
      new.type = type ∧ (pos = 0 ∨ (findItem items name).isSome →
        new.data = written (oldData items name) pos data))

/-- What `_RemoveSmallData()` promises -/
structure Removed (header : List UInt8) (items : List Item) (inode : Inode) (name : List UInt8)
    (status : AttributeStatus) (inode' : Inode) : Prop where
  length_eq : inode'.node.length = inode.node.length
  files_eq : inode'.files = inode.files
  status_eq : status = if (findItem items name).isSome then .ok else .entryNotFound
  failed : status ≠ .ok → inode' = inode
  removed : status = .ok → IsSection header (removeName items name) inode'.node

variable {header name data : List UInt8} {items pre post kept : List Item} {item : Item}
  {type pos : ℕ} {inode inode' : Inode} {force : Bool}

lemma Stored.added (h : Stored header kept name type pos data inode'.node)
    (hfind : findItem kept name = findItem items name) :
    (name = [] → IsSection header kept inode'.node) ∧
    (name ≠ [] → ∃ new, IsSection header (place new kept) inode'.node ∧ new.name = name ∧
      new.type = type ∧ (pos = 0 ∨ (findItem items name).isSome →
        new.data = written (oldData items name) pos data)) := by
  refine ⟨h.nameless, fun hne => ?_⟩
  obtain ⟨new, hsection, hname, htype, hdata, _⟩ := h.named hne
  refine ⟨new, hsection, hname, htype, fun hor => ?_⟩
  rw [hdata, storedData, oldData, hfind]
  cases hold : findItem items name with
  | some old => rfl
  | none =>
    have hpos : pos = 0 := hor.resolve_right (by rw [hold]; simp)
    subst hpos
    show (List.replicate 0 0 ++ data).take data.length = written [] 0 data
    rw [List.replicate_zero, List.nil_append, List.take_length]
    rfl

lemma added_of_failed {status : AttributeStatus} (hstatus : status ≠ .ok)
    (hnode : inode'.node = inode.node)
    (hfull : ¬Fits items name (pos + data.length) inode.node.length)
    (hunforced : force = false → status = .deviceFull) :
    Added header items inode name type pos data force status inode' where
  length_eq := by rw [hnode]
  failed _ := hnode
  fits hfits := absurd hfits hfull
  full _ := hunforced
  added hok := absurd hok hstatus

lemma added_of_forced {moved : Item} {node' : List UInt8}
    (hfull : ¬Fits items name (pos + data.length) inode.node.length)
    (hevicts : Evicts items name (bytesMissing items name (pos + data.length) inode.node.length)
      moved kept)
    (hstored : Stored header kept name type pos data node')
    (hlen : node'.length = inode.node.length) :
    Added header items inode name type pos data true .ok ⟨node', filesWith inode moved⟩ where
  length_eq := hlen
  failed hne := absurd rfl hne
  fits _ := rfl
  full _ hforce := absurd hforce (by decide)
  added _ := ⟨kept, Or.inr ⟨rfl, hfull, moved, hevicts, rfl⟩, Stored.added hstored hevicts.findItem_eq⟩

lemma addSmallData_of_full (io : AttributeIo) (inode : Inode)
    (h : IsSection header items inode.node)
    (hsmall : bytesFor name (pos + data.length) < 2 ^ 32)
    (hfull : ¬Fits items name (pos + data.length) inode.node.length) :
    inode.addSmallData io name type pos data false = some (.deviceFull, inode) := by
  rcases none_or_first (fun item : Item => item.name = name) items with
    habsent | ⟨pre, item, post, hitems, hname, hpre⟩
  · rw [Fits, removeName_of_absent habsent, ← spaceNeeded_of_lt hsmall] at hfull
    exact addSmallData_of_absent_full io inode h habsent (by omega)
  · subst hitems
    exact addSmallData_of_first_full io inode h hpre hname hfull

lemma addSmallData_added (io : AttributeIo) (inode : Inode) (h : IsSection header items inode.node)
    (htype : type < 2 ^ 32) (hnull : 0 ∉ name)
    (hsmall : bytesFor name (pos + data.length) < 2 ^ 32) (force : Bool) :
    ∃ status inode', inode.addSmallData io name type pos data force = some (status, inode') ∧
      Added header items inode name type pos data force status inode' := by
  have hspace := spaceNeeded_of_lt hsmall
  by_cases hfits : Fits items name (pos + data.length) inode.node.length
  · have ⟨node', (hadd : inode.addSmallData io name type pos data force = _), hstored, hlen⟩ :=
      addSmallData_of_fits io inode h htype hnull hfits
    refine ⟨.ok, _, hadd, hlen, fun hne => absurd rfl hne, fun _ => rfl, fun hfull => absurd hfits hfull,
      fun _ => ⟨items, Or.inl ⟨rfl, rfl⟩, Stored.added hstored rfl⟩⟩
  cases force with
  | false =>
    exact ⟨.deviceFull, inode, addSmallData_of_full io inode h hsmall hfits,
      added_of_failed (by decide) rfl hfits fun _ => rfl⟩
  | true =>
    by_cases hle : bytesFor name (pos + data.length) ≤ inode.node.length - SmallData.start
    · have hspace' : spaceNeeded name pos data.length ≤ inode.node.length - SmallData.start := by
        rw [hspace]
        exact hle
      have hle' : bytesFor name (pos + data.length) ≤ inode.node.length := by omega
      rcases none_or_first (fun item : Item => item.name = name) items with
        habsent | ⟨pre, item, post, hitems, hname, hpre⟩
      · have hmissing : bytesMissing items name (pos + data.length) inode.node.length =
            bytesFor name (pos + data.length) := by
          rw [bytesMissing, findItem_of_absent habsent]
        rw [addSmallData_of_absent io inode h habsent hspace']
        rcases appendSmallData_forced io inode h htype hnull habsent hspace hle' hfits with
          ⟨files, hfailed⟩ | ⟨moved, kept, node', hevicts, hadd, hstored, hlen⟩
        · exact ⟨.error, _, hfailed, added_of_failed (by decide) rfl hfits (by simp)⟩
        · rw [← hmissing] at hevicts
          exact ⟨.ok, _, hadd, added_of_forced hfits hevicts hstored hlen⟩
      · subst hitems
        rw [addSmallData_of_first io inode h hpre hname hspace']
        rcases replaceSmallData_forced io inode h htype hpre hname hspace hle' hfits with
          ⟨files, hfailed⟩ | ⟨moved, kept, node', hevicts, hadd, hstored, hlen⟩
        · exact ⟨.error, _, hfailed, added_of_failed (by decide) rfl hfits (by simp)⟩
        · exact ⟨.ok, _, hadd, added_of_forced hfits hevicts hstored hlen⟩
    · refine ⟨.deviceFull, inode, ?_, added_of_failed (by decide) rfl hfits fun _ => rfl⟩
      rw [Inode.addSmallData, if_pos (by rw [hspace]; omega)]

lemma removeSmallData_removed (inode : Inode) (h : IsSection header items inode.node)
    (name : List UInt8) :
    ∃ status inode', inode.removeSmallData name = some (status, inode') ∧
      Removed header items inode name status inode' := by
  rcases none_or_first (fun item : Item => item.name = name) items with
    habsent | ⟨pre, item, post, hitems, hname, hpre⟩
  · obtain ⟨_, hlast⟩ := h.find_of_absent habsent
    refine ⟨.entryNotFound, inode, if_pos hlast, rfl, rfl, ?_, fun _ => rfl, fun hok => ?_⟩
    · rw [findItem_of_absent habsent]
      rfl
    · exact absurd hok (by decide)
  · subst hitems
    obtain ⟨hfind, hlast⟩ := h.find_of_first hpre hname
    obtain ⟨node', hremove, hsection, hlen⟩ := removeItem_section h
    refine ⟨.ok, { inode with node := node' }, ?_, hlen, rfl, ?_, fun hne => absurd rfl hne,
      fun _ => ?_⟩
    · unfold Inode.removeSmallData
      simp only
      rw [hlast, if_neg Bool.false_ne_true, hfind, hremove]
      rfl
    · rw [findItem_of_first hpre hname]
      rfl
    · rw [removeName_of_first hpre hname]
      exact hsection

/-- The section stays well formed. The size of an item that is added is a `uint32`. -/
theorem smallData_right (io : AttributeIo) (inode : Inode) (h : IsSection header items inode.node)
    (name : List UInt8) (hnull : 0 ∉ name) :
    (∀ type pos data force, type < 2 ^ 32 → bytesFor name (pos + data.length) < 2 ^ 32 →
      ∃ status inode', inode.addSmallData io name type pos data force = some (status, inode') ∧
        Added header items inode name type pos data force status inode') ∧
    ∃ status inode', inode.removeSmallData name = some (status, inode') ∧
      Removed header items inode name status inode' := by
  refine ⟨fun type pos data force htype hsmall => ?_, removeSmallData_removed inode h name⟩
  exact addSmallData_added io inode h htype hnull hsmall force

/-! ## A section that is almost full -/

def allowed :
    AttributeIo := { create := fun _ => true, write := fun _ => true, remove := fun _ => true }

def largeItem : Item :=
  { type := 0x43535452, name := [97], pad := (0, 0), data := List.replicate 700 1, tail := 0
    type_lt := by decide, name_ne := by decide, name_null := by decide, name_lt := by decide
    data_lt := by rw [List.length_replicate]; decide }

/-- An inode of 1024 bytes that has the attribute "a", but no name yet -/
def crowdedInode : Inode :=
  { node := List.replicate 232 0 ++ layout [largeItem] ++ List.replicate 79 0
    files := fun _ => none }

lemma isSection_crowdedInode :
    IsSection (List.replicate 232 0) [largeItem] crowdedInode.node where
  header_length := List.length_replicate
  node_le := by decide +kernel
  eq := ⟨List.replicate 79 0, rfl, ended_zeros 79⟩

theorem smallData_right_crowded :
    ∃ status inode', crowdedInode.addSmallData allowed [fileNameName] 0x43535452 0
        (List.replicate 100 2) true = some (status, inode') ∧
      Added (List.replicate 232 0) [largeItem] crowdedInode [fileNameName] 0x43535452 0
        (List.replicate 100 2) true status inode' :=
  (smallData_right allowed crowdedInode isSection_crowdedInode [fileNameName] (by decide)).1
    0x43535452 0 (List.replicate 100 2) true (by decide) (by decide)

/-- Setting a name of 100 bytes moves the attribute "a" away. -/
theorem not_smallData_right : IsSection (List.replicate 232 0) [largeItem] crowdedInode.node ∧
    ∃ inode', crowdedInode.addSmallData allowed [fileNameName] 0x43535452 0
        (List.replicate 100 2) true = some (.ok, inode') ∧
      ¬∃ new : Item, new.name = [fileNameName] ∧
        IsSection (List.replicate 232 0) (place new [largeItem]) inode'.node := by
  refine ⟨isSection_crowdedInode, ?_⟩
  have hrun : (crowdedInode.addSmallData allowed [fileNameName] 0x43535452 0
      (List.replicate 100 2) true).map (fun result => (result.1,
        SmallData.isLast result.2.node (SmallData.find result.2.node [97]))) =
      some (.ok, true) := by
    decide +kernel
  obtain ⟨⟨status, inode'⟩, hadd, hresult⟩ := Option.map_eq_some_iff.1 hrun
  obtain ⟨hstatus, hlast⟩ := Prod.mk.inj hresult
  have hok : status = .ok := hstatus
  rw [hok] at hadd
  refine ⟨inode', hadd, ?_⟩
  rintro ⟨new, hname, hsection⟩
  -- the attribute would be the first item
  have hplace : place new [largeItem] = [] ++ largeItem :: [new] := by
    rw [place, if_neg (by rw [hname]; decide)]
    rfl
  rw [hplace] at hsection
  obtain ⟨_, (hfound : SmallData.isLast inode'.node (SmallData.find inode'.node [97]) = false)⟩ :=
    hsection.find_of_first (by simp) rfl
  exact absurd hlast (by rw [hfound]; decide)

end Haiku.Bfs
