import Haiku.Query.KeyTheorems

/-!
# Terms

A term that stands for what an expression says keeps doing so: its complement stands for the negation,
and the values that are converted while it is matched with inodes stay those of its equations.
-/

namespace Haiku.Query

/-! ## Equations -/

def convertedKey (s : Text) : TypeCode → Key
  | .string => .string s s.length
  | .mimeString => .string s s.length
  | .int32 => .number (strtol 32 s)
  | .uint32 => .number (strtoul 32 s)
  | .int64 => .number (strtol 64 s)
  | .uint64 => .number (strtoul 64 s)

/-- The type that `Equation::ConvertValue()` sets -/
def TypeCode.converted : TypeCode → TypeCode
  | .mimeString => .string
  | type => type

/-- The equation of the parser for an equation of the language, also after its value was converted -/
structure Equation.Names (e : Equation) (a : Atom) : Prop where
  fAttribute : e.fAttribute = a.attributeName
  fOp : e.fOp = a.op
  fString : a.value.Text e.fString
  short : e.fString.length < 256
  noNull : '\x00' ∉ e.fString
  fIsPattern : e.fIsPattern = decide a.HasPattern
  fIsSpecialTime : e.fIsSpecialTime = decide (a.attributeName = "last_modified".toList)
  value : ∀ type, e.fType = some type →
    type.converted = type ∧ e.value = convertedKey e.fString type

section

variable {e : Equation} {a : Atom} {inode : Inode}

lemma Equation.Names.convertValue (h : e.Names a) (type : TypeCode)
    (hstring : a.HasPattern → type = .string ∨ type = .mimeString) :
    (e.convertValue type).Names a ∧
      (e.convertValue type).value = convertedKey e.fString type ∧
      (e.convertValue type).fType = some type.converted := by
  have htake : e.fString.take (inodeFileNameLength - 1) = e.fString :=
    List.take_of_length_le (by have := h.short; unfold inodeFileNameLength; omega)
  have hpattern : ¬ (type = .string ∨ type = .mimeString) → false = decide a.HasPattern :=
    fun hno => (decide_eq_false fun hp => hno (hstring hp)).symm
  unfold Equation.convertValue
  by_cases hsame : some type = e.fType
  · rw [if_pos hsame]
    have hvalue := h.value type hsame.symm
    exact ⟨h, hvalue.2, by rw [hvalue.1]; exact hsame.symm⟩
  rw [if_neg hsame]
  -- the conversion sets the value, the type and, for a number, that there is no pattern
  cases type with
  | string =>
    dsimp only
    rw [htake]
    exact ⟨{ h with value := fun type ht => by cases ht; exact ⟨rfl, rfl⟩ }, rfl, rfl⟩
  | mimeString =>
    dsimp only
    rw [htake]
    exact ⟨{ h with value := fun type ht => by cases ht; exact ⟨rfl, rfl⟩ }, rfl, rfl⟩
  | int32 | uint32 | int64 | uint64 =>
    exact ⟨{ h with
      fIsPattern := hpattern (by decide)
      value := fun type ht => by cases ht; exact ⟨rfl, rfl⟩ }, rfl, rfl⟩

lemma Equation.Names.compareTo_string (h : e.Names a) {v s memory : Text} {size : ℕ}
    (hv : a.value = .string v) (hvalue : e.value = .string e.fString e.fString.length)
    (hType : e.fType = some .string)
    (hpattern : a.HasPattern → Equation.cString memory = s)
    (hs : Agrees a.op (compareKeys .string (.string memory size) (.string v v.length)) s v) :
    e.compareTo (.string memory size) = true ↔
      if a.HasPattern then matchString (v.length + 1) v s = .ok ↔ a.op = .equal
      else a.op.Holds s v := by
  have hfString : e.fString = v := by
    have := h.fString
    rw [hv] at this
    cases this with
    | string => rfl
  rw [hfString] at hvalue
  by_cases hp : a.HasPattern
  · have hfp : e.fIsPattern = true := by rw [h.fIsPattern]; exact decide_eq_true hp
    have hcompare : e.compare (.string memory size) =
        if matchString (v.length + 1) v s = .ok then 0 else 1 := by
      unfold Equation.compare
      rw [if_pos hfp, hvalue, ← hpattern hp]
    have hop := h.fOp
    rw [if_pos hp]
    unfold Equation.compareTo
    rw [hcompare, hop]
    rcases hp.1 with hop' | hop'
    · rw [hop']
      by_cases hm : matchString (v.length + 1) v s = .ok <;> simp [hm]
    · rw [hop']
      by_cases hm : matchString (v.length + 1) v s = .ok <;> simp [hm]
  · have hfp : e.fIsPattern = false := by rw [h.fIsPattern]; exact decide_eq_false hp
    have hcompare : e.compare (.string memory size) =
        compareKeys .string (.string memory size) (.string v v.length) := by
      unfold Equation.compare
      rw [if_neg (by rw [hfp]; decide), hvalue, hType]
      split_ifs <;> rfl
    rw [if_neg hp, ← h.fOp]
    refine compareTo_iff ?_
    rw [hcompare, h.fOp]
    exact hs

variable {type : TypeCode}

lemma Equation.Names.compareTo_number (h : e.Names a) {m n : ℤ} (hv : a.value = .number n)
    (hvalue : e.value = convertedKey e.fString type) (hType : e.fType = some type.converted)
    (hm : type.Fits m) (hn : type.Fits n)
    (hsafe : type = .int32 → a.op = .equal ∨ a.op = .unequal ∨ TypeCode.int32.Fits (m - n))
    (htime : e.fIsSpecialTime = true → type = .int64) :
    e.compareTo (.number m) = true ↔
      a.op.Holds (if e.fIsSpecialTime then m / 2 ^ inodeTimeShift else m) n := by
  have hfp : e.fIsPattern = false := by
    rw [h.fIsPattern]
    refine decide_eq_false fun hp => ?_
    have := hp.2
    rw [hv] at this
    exact this
  have htext : (Value.number n).Text e.fString := by rw [← hv]; exact h.fString
  have hcompare : e.compare (.number m) = compareKeys type.converted
      (.number (if e.fIsSpecialTime then m / 2 ^ inodeTimeShift else m)) e.value := by
    unfold Equation.compare
    rw [if_neg (by rw [hfp]; decide), hType]
    split_ifs <;> rfl
  rw [← h.fOp]
  refine compareTo_iff ?_
  rw [hcompare, hvalue, h.fOp]
  cases type with
  | string | mimeString => exact absurd hn (by simp [TypeCode.Fits])
  | int32 =>
    have hno : e.fIsSpecialTime = false := by
      by_contra hno
      exact absurd (htime (by simpa using hno)) (by decide)
    have hkey : convertedKey e.fString .int32 = .number n := by
      show Key.number (strtol 32 e.fString) = _
      rw [strtol_of_text 32 htext hn]
    rw [hkey, hno]
    exact compareKeys_int32 a.op hm hn (hsafe rfl)
  | uint32 =>
    have hkey : convertedKey e.fString .uint32 = .number n := by
      show Key.number (strtoul 32 e.fString) = _
      rw [strtoul_of_text 32 htext hn]
    rw [hkey]
    exact agrees_order a.op _ n
  | int64 =>
    have hkey : convertedKey e.fString .int64 = .number n := by
      show Key.number (strtol 64 e.fString) = _
      rw [strtol_of_text 64 htext hn]
    rw [hkey]
    exact agrees_order a.op _ n
  | uint64 =>
    have hkey : convertedKey e.fString .uint64 = .number n := by
      show Key.number (strtoul 64 e.fString) = _
      rw [strtoul_of_text 64 htext hn]
    rw [hkey]
    exact agrees_order a.op _ n

lemma agrees_stored (op : Op) {data behind v : Text} (hdata : '\x00' ∉ data.dropLast)
    (hv : '\x00' ∉ v) (hlen : v.length < inodeFileNameLength) (small : Bool) :
    Agrees op (compareKeys .string
      (if small then .string (data ++ behind) data.length
        else .string (data.take inodeFileNameLength ++ behind)
          (min data.length inodeFileNameLength)) (.string v v.length)) (Equation.cString data) v := by
  have hs : '\x00' ∉ Equation.cString data := notMem_cString data
  have hwhole : Agrees op (compareKeys .string (.string (data ++ behind) data.length)
      (.string v v.length)) (Equation.cString data) v := by
    rcases cString_of_dropLast hdata with h | h
    · have hkeys := (compareKeys_string op hs hv behind).1
      rw [← h] at hkeys ⊢
      exact hkeys
    · have hkeys := (compareKeys_string op hs hv behind).2
      have hmem : Equation.cString data ++ '\x00' :: behind = data ++ behind := by
        conv_rhs => rw [h]
        simp
      have hsize : (Equation.cString data).length + 1 = data.length := by
        conv_rhs => rw [h]
        simp
      rw [hmem, hsize] at hkeys
      exact hkeys
  cases small with
  | true => exact hwhole
  | false =>
    show Agrees op (compareKeys .string (.string (data.take inodeFileNameLength ++ behind)
      (min data.length inodeFileNameLength)) (.string v v.length)) (Equation.cString data) v
    by_cases hlong : data.length ≤ inodeFileNameLength
    · rw [List.take_of_length_le hlong, min_eq_left hlong]
      exact hwhole
    -- only the start is read, which is the start of the string
    · have hle : inodeFileNameLength ≤ (Equation.cString data).length := by
        rcases cString_of_dropLast hdata with h | h
        · rw [← h]; omega
        · have hsize : (Equation.cString data).length + 1 = data.length := by
            conv_rhs => rw [h]
            simp
          omega
      have htake : data.take inodeFileNameLength =
          (Equation.cString data).take inodeFileNameLength := by
        rcases cString_of_dropLast hdata with h | h
        · rw [← h]
        · conv_lhs => rw [h]
          exact List.take_append_of_le_length hle
      have hsize : min data.length inodeFileNameLength =
          ((Equation.cString data).take inodeFileNameLength).length := by
        rw [List.length_take]
        omega
      refine Agrees.of_take hlen ?_
      rw [htake, hsize]
      exact (compareKeys_string op (fun h => hs (List.mem_of_mem_take h)) hv behind).1

lemma Inode.Valid.read_string (hv : inode.Valid) {name : Text} {memory : Text} {size : ℕ}
    (hread : inode.read name = some (type, .string memory size)) :
    (type = .string ∨ type = .mimeString) ∧ name ≠ "last_modified".toList ∧
      ∃ s, inode.value name = some (.string s) ∧ ∀ op v, '\x00' ∉ v →
        v.length < inodeFileNameLength →
        Agrees op (compareKeys .string (.string memory size) (.string v v.length)) s v := by
  unfold Inode.read at hread
  unfold Inode.value
  by_cases h1 : name = "name".toList
  · rw [if_pos h1] at hread ⊢
    cases hread
    refine ⟨Or.inl rfl, ?_, inode.name, rfl, fun op v hnull _ => ?_⟩
    · rw [h1]; decide
    · exact (compareKeys_string op hv.name hnull ['\x00']).1
  rw [if_neg h1] at hread ⊢
  by_cases h2 : name = "size".toList
  · rw [if_pos h2] at hread
    simp at hread
  rw [if_neg h2] at hread ⊢
  by_cases h3 : name = "last_modified".toList
  · rw [if_pos h3] at hread
    simp at hread
  rw [if_neg h3] at hread ⊢
  cases ha : inode.attributes name with
  | none => simp [ha] at hread
  | some attr =>
    have hattr := hv.attributes name attr ha
    unfold Attribute.Valid at hattr
    rw [ha] at hread
    cases hd : attr.data with
    | number n => simp [hd] at hread
    | string data behind =>
      rw [hd] at hattr
      have hkey : attr.type = type ∧ Key.string memory size =
          if attr.small then .string (data ++ behind) data.length
          else .string (data.take inodeFileNameLength ++ behind)
            (min data.length inodeFileNameLength) := by
        cases hsmall : attr.small <;> simp [hd, hsmall] at hread ⊢ <;>
          exact ⟨hread.1, hread.2.1.symm, hread.2.2.symm⟩
      refine ⟨hkey.1 ▸ hattr.1, h3, Equation.cString data, by simp [hd], fun op v hnull hlen => ?_⟩
      rw [hkey.2]
      exact agrees_stored op hattr.2 hnull hlen attr.small

lemma Inode.Valid.read_number (hv : inode.Valid) {name : Text} {m : ℤ}
    (hread : inode.read name = some (type, .number m)) :
    type.Fits m ∧ (name = "last_modified".toList → type = .int64) ∧
      inode.value name = some (.number
        (if name = "last_modified".toList then m / 2 ^ inodeTimeShift else m)) := by
  unfold Inode.read at hread
  unfold Inode.value
  by_cases h1 : name = "name".toList
  · rw [if_pos h1] at hread
    simp at hread
  rw [if_neg h1] at hread ⊢
  by_cases h2 : name = "size".toList
  · rw [if_pos h2] at hread ⊢
    cases hread
    refine ⟨hv.size, fun _ => rfl, ?_⟩
    rw [if_neg (by rw [h2]; decide)]
  rw [if_neg h2] at hread ⊢
  by_cases h3 : name = "last_modified".toList
  · rw [if_pos h3] at hread ⊢
    cases hread
    refine ⟨hv.lastModified, fun _ => rfl, ?_⟩
    rw [if_pos h3]
  rw [if_neg h3] at hread ⊢
  rw [if_neg h3]
  cases ha : inode.attributes name with
  | none => simp [ha] at hread
  | some attr =>
    have hattr := hv.attributes name attr ha
    unfold Attribute.Valid at hattr
    rw [ha] at hread
    cases hd : attr.data with
    | string data behind => cases hsmall : attr.small <;> simp [hd, hsmall] at hread
    | number n =>
      rw [hd] at hattr
      have hkey : attr.type = type ∧ n = m := by simpa [hd] using hread
      refine ⟨?_, fun h => absurd h h3, by simp [hd, hkey.2]⟩
      rw [← hkey.1, ← hkey.2]
      exact hattr

lemma Equation.Names.matchInode (h : e.Names a) (hv : inode.Valid) (ht : a.Typed inode)
    (hs : a.Safe inode) :
    ((e.matchInode inode).1 = true ↔ a.Holds inode) ∧ (e.matchInode inode).2.Names a := by
  unfold Atom.Typed at ht
  unfold Atom.Safe at hs
  unfold Equation.matchInode Atom.Holds
  rw [h.fAttribute]
  cases hread : inode.read a.attributeName with
  | none => simp [hread] at ht
  | some r =>
    obtain ⟨type, key⟩ := r
    rw [hread] at ht hs
    cases key with
    | string memory size =>
      cases hvalue : a.value with
      | number n => simp [hvalue] at ht
      | string v =>
        rw [hvalue] at hs
        have htype := hv.read_string hread
        obtain ⟨s, hs', hagrees⟩ := htype.2.2
        have hconv := h.convertValue type fun _ => htype.1
        have hfString : e.fString = v := by
          have := h.fString
          rw [hvalue] at this
          cases this with
          | string => rfl
        have hstring : (e.convertValue type).value = .string e.fString e.fString.length ∧
            (e.convertValue type).fType = some .string := by
          rw [hconv.2.1, hconv.2.2]
          rcases htype.1 with ht | ht <;> (rw [ht]; exact ⟨rfl, rfl⟩)
        have hsame : (e.convertValue type).fString = e.fString := by
          have := hconv.1.fString
          rw [hvalue] at this
          rw [hfString]
          cases this with
          | string => rfl
        have hnull : '\x00' ∉ v := hfString ▸ h.noNull
        have hlen : v.length < inodeFileNameLength := hfString ▸ h.short
        have hpattern : a.HasPattern → Equation.cString memory = s := by
          intro hp
          have := hs hp
          rw [hs'] at this
          simpa using this.symm
        refine ⟨?_, hconv.1⟩
        rw [hs']
        exact hconv.1.compareTo_string hvalue (by rw [hsame]; exact hstring.1) hstring.2 hpattern
          (hagrees a.op v hnull hlen)
    | number m =>
      cases hvalue : a.value with
      | string v => simp [hvalue] at ht
      | number n =>
        rw [hvalue] at hs
        have htype := hv.read_number hread
        have hn : type.Fits n := by simpa [hvalue] using ht
        have hconv := h.convertValue type fun hp => by
          have := hp.2
          rw [hvalue] at this
          exact this.elim
        have hsame : (e.convertValue type).fString = e.fString := by
          unfold Equation.convertValue
          split_ifs
          · rfl
          · cases type <;> rfl
        have hspecial : (e.convertValue type).fIsSpecialTime =
            decide (a.attributeName = "last_modified".toList) := hconv.1.fIsSpecialTime
        have htime : (e.convertValue type).fIsSpecialTime = true → type = .int64 := by
          rw [hspecial, decide_eq_true_iff]
          exact htype.2.1
        have hsafe : type = .int32 →
            a.op = .equal ∨ a.op = .unequal ∨ TypeCode.int32.Fits (m - n) := hs
        have hcompare := hconv.1.compareTo_number hvalue (by rw [hsame]; exact hconv.2.1) hconv.2.2
          htype.1 hn hsafe htime
        refine ⟨?_, hconv.1⟩
        rw [htype.2.2]
        simp only [hspecial, decide_eq_true_eq] at hcompare
        exact hcompare

end

/-! ## Complements -/

/-- `!=` for `==`, and so on -/
def Atom.complement (a : Atom) : Atom := { a with op := a.op.complement }

section

variable {a : Atom} {inode : Inode}

lemma Op.complement_order (op : Op) :
    (op.complement = .equal ∨ op.complement = .unequal) ↔ (op = .equal ∨ op = .unequal) := by
  cases op <;> decide

lemma Atom.hasPattern_complement : a.complement.HasPattern ↔ a.HasPattern := by
  unfold Atom.HasPattern
  exact and_congr (Op.complement_order a.op) Iff.rfl

lemma Atom.Safe.complement (h : a.Safe inode) : a.complement.Safe inode := by
  unfold Atom.Safe at h ⊢
  have hname : a.complement.attributeName = a.attributeName := rfl
  have hvalue : a.complement.value = a.value := rfl
  have hop : a.complement.op = a.op.complement := rfl
  simp only [hname, hvalue, hop, Atom.hasPattern_complement, ← or_assoc, Op.complement_order] at h ⊢
  exact h

lemma Inode.Valid.value_of_typed (hv : inode.Valid) (ht : a.Typed inode) :
    (∃ s v, inode.value a.attributeName = some (.string s) ∧ a.value = .string v) ∨
      ∃ m n, inode.value a.attributeName = some (.number m) ∧ a.value = .number n := by
  unfold Atom.Typed at ht
  cases hread : inode.read a.attributeName with
  | none => simp [hread] at ht
  | some r =>
    obtain ⟨type, key⟩ := r
    rw [hread] at ht
    cases key with
    | string memory size =>
      cases hvalue : a.value with
      | number n => simp [hvalue] at ht
      | string v =>
        obtain ⟨s, hs, -⟩ := (hv.read_string hread).2.2
        exact Or.inl ⟨s, v, hs, rfl⟩
    | number m =>
      cases hvalue : a.value with
      | string v => simp [hvalue] at ht
      | number n => exact Or.inr ⟨_, n, (hv.read_number hread).2.2, rfl⟩

lemma Atom.holds_complement (hv : inode.Valid) (ht : a.Typed inode) :
    a.complement.Holds inode ↔ ¬ a.Holds inode := by
  have hname : a.complement.attributeName = a.attributeName := rfl
  have hval : a.complement.value = a.value := rfl
  have hop : a.complement.op = a.op.complement := rfl
  unfold Atom.Holds
  rw [hname, hval, hop]
  rcases hv.value_of_typed ht with ⟨s, v, hs, hv⟩ | ⟨m, n, hm, hn⟩
  · rw [hs, hv]
    show (if a.complement.HasPattern then _ else _) ↔ ¬ (if a.HasPattern then _ else _)
    by_cases hp : a.HasPattern
    · rw [if_pos hp, if_pos (Atom.hasPattern_complement.2 hp)]
      rcases hp.1 with h | h
      · simp [h, Op.complement]
      · simp [h, Op.complement]
    · rw [if_neg hp, if_neg fun h => hp (Atom.hasPattern_complement.1 h)]
      exact Op.holds_complement a.op s v
  · rw [hm, hn]
    exact Op.holds_complement a.op m n

lemma Equation.Names.complement {e : Equation} (h : e.Names a) :
    e.complement.Names a.complement := by
  exact { h with
    fOp := by
      show e.fOp.complement = a.op.complement
      rw [h.fOp]
    fIsPattern := by
      show e.fIsPattern = _
      rw [h.fIsPattern]
      exact decide_eq_decide.2 Atom.hasPattern_complement.symm }

end

/-! ## Terms -/

/-- The equation has its attribute in the inode, and is matched as it says. -/
def Atom.Ready (a : Atom) (inode : Inode) : Prop := inode.Valid ∧ a.Typed inode ∧ a.Safe inode

/-- The term stands for a condition on the inodes of a set. -/
def Term.Means (R : Inode → Prop) : Term → (Inode → Prop) → Prop
  | .equation e, p =>
    ∃ a, e.Names a ∧ ∀ inode, R inode → a.Ready inode ∧ (p inode ↔ a.Holds inode)
  | .operator .and left right, p =>
    ∃ q r, left.Means R q ∧ right.Means R r ∧ ∀ inode, R inode → (p inode ↔ q inode ∧ r inode)
  | .operator .or left right, p =>
    ∃ q r, left.Means R q ∧ right.Means R r ∧ ∀ inode, R inode → (p inode ↔ q inode ∨ r inode)

section

variable {R : Inode → Prop} {p q : Inode → Prop}

variable {term : Term}

lemma Term.Means.congr (h : term.Means R p) (hpq : ∀ inode, R inode → (q inode ↔ p inode)) :
    term.Means R q := by
  cases term with
  | equation e =>
    obtain ⟨a, ha, hR⟩ := h
    exact ⟨a, ha, fun i hi => ⟨(hR i hi).1, (hpq i hi).trans (hR i hi).2⟩⟩
  | operator fOp left right =>
    cases fOp with
    | and | or =>
      obtain ⟨q', r', hq', hr', hR⟩ := h
      exact ⟨q', r', hq', hr', fun i hi => (hpq i hi).trans (hR i hi)⟩

lemma Term.Means.complement (h : term.Means R p) :
    term.complement.Means R fun inode => ¬ p inode := by
  induction term generalizing p with
  | equation e =>
    obtain ⟨a, ha, hR⟩ := h
    refine ⟨a.complement, ha.complement, fun i hi => ?_⟩
    have hready := (hR i hi).1
    refine ⟨⟨hready.1, hready.2.1, hready.2.2.complement⟩, ?_⟩
    rw [Atom.holds_complement hready.1 hready.2.1, ← (hR i hi).2]
  | operator fOp left right ihl ihr =>
    cases fOp with
    | and =>
      obtain ⟨q, r, hq, hr, hR⟩ := h
      exact ⟨_, _, ihl hq, ihr hr, fun i hi => (not_congr (hR i hi)).trans not_and_or⟩
    | or =>
      obtain ⟨q, r, hq, hr, hR⟩ := h
      exact ⟨_, _, ihl hq, ihr hr, fun i hi => (not_congr (hR i hi)).trans not_or⟩

lemma Term.Means.matchInode (h : term.Means R p) {inode : Inode} (hi : R inode) :
    ((term.matchInode inode).1 = true ↔ p inode) ∧ (term.matchInode inode).2.Means R p := by
  induction term generalizing p with
  | equation e =>
    obtain ⟨a, ha, hR⟩ := h
    have hready := (hR inode hi).1
    have hmatch := ha.matchInode hready.1 hready.2.1 hready.2.2
    refine ⟨hmatch.1.trans (hR inode hi).2.symm, a, hmatch.2, hR⟩
  | operator fOp left right ihl ihr =>
    cases fOp with
    | and =>
      obtain ⟨q, r, hq, hr, hR⟩ := h
      have hl := ihl hq
      have hr' := ihr hr
      unfold Term.matchInode
      dsimp only
      rw [hR inode hi, ← hl.1, ← hr'.1]
      by_cases hmatch : (left.matchInode inode).1 = true
      · rw [if_pos hmatch]
        exact ⟨by simp [hmatch], q, r, hl.2, hr'.2, hR⟩
      · rw [if_neg hmatch]
        exact ⟨by simp [hmatch], q, r, hl.2, hr, hR⟩
    | or =>
      obtain ⟨q, r, hq, hr, hR⟩ := h
      have hl := ihl hq
      have hr' := ihr hr
      unfold Term.matchInode
      dsimp only
      rw [hR inode hi, ← hl.1, ← hr'.1]
      -- the score only says which of them comes first
      by_cases hscore : right.score > left.score
      · rw [if_pos hscore]
        by_cases hmatch : (left.matchInode inode).1 = true
        · rw [if_pos hmatch]
          exact ⟨by simp [hmatch], q, r, hl.2, hr, hR⟩
        · rw [if_neg hmatch]
          exact ⟨by simp [hmatch], q, r, hl.2, hr'.2, hR⟩
      · rw [if_neg hscore]
        by_cases hmatch : (right.matchInode inode).1 = true
        · rw [if_pos hmatch]
          exact ⟨by simp [hmatch], q, r, hq, hr'.2, hR⟩
        · rw [if_neg hmatch]
          exact ⟨by simp [hmatch], q, r, hl.2, hr'.2, hR⟩

/-- `Match()` of one inode after the other -/
def Term.matchAll (term : Term) : List Inode → List Bool
  | [] => []
  | inode :: inodes => (term.matchInode inode).1 :: (term.matchInode inode).2.matchAll inodes

lemma Term.Means.matchAll (h : term.Means R p) {inodes : List Inode}
    (hR : ∀ inode ∈ inodes, R inode) :
    List.Forall₂ (fun inode matches_ => matches_ = true ↔ p inode) inodes (term.matchAll inodes) := by
  induction inodes generalizing term with
  | nil => exact List.Forall₂.nil
  | cons inode inodes ih =>
    have hmatch := h.matchInode (hR inode List.mem_cons_self)
    exact List.Forall₂.cons hmatch.1 (ih hmatch.2 fun i hi => hR i (List.mem_cons_of_mem inode hi))

end

end Haiku.Query
