import Haiku.Query.TermTheorems

/-!
# The parser

The parser reads every text that writes an expression up to its end, and makes a term that stands for
the expression.
-/

namespace Haiku.Query

/-! ## Whitespace -/

lemma skipWhitespace_append {b : Text} (hb : Blank b) (s : Text) :
    skipWhitespace (b ++ s) = skipWhitespace s := by
  induction b with
  | nil => rfl
  | cons c b ih =>
    have hc : (c == ' ' || c == '\t') = true := by
      rcases hb c List.mem_cons_self with h | h <;> simp [h]
    have h := ih fun d hd => hb d (List.mem_cons_of_mem c hd)
    exact (List.dropWhile_cons_of_pos (p := fun c => c == ' ' || c == '\t') hc).trans h

lemma skipWhitespace_of_head {s : Text} (h : ∀ c ∈ s.head?, c ≠ ' ' ∧ c ≠ '\t') :
    skipWhitespace s = s := by
  cases s with
  | nil => rfl
  | cons c s =>
    have hc := h c rfl
    exact List.dropWhile_cons_of_neg (by simp [hc.1, hc.2])

lemma skipWhitespace_idem (s : Text) : skipWhitespace (skipWhitespace s) = skipWhitespace s := by
  induction s with
  | nil => rfl
  | cons c s ih =>
    by_cases hc : c = ' ' ∨ c = '\t'
    · have hskip : skipWhitespace (c :: s) = skipWhitespace s := by
        refine skipWhitespace_append (b := [c]) ?_ s
        intro d hd
        rw [List.mem_singleton.1 hd]
        exact hc
      rw [hskip, ih]
    · have hskip : skipWhitespace (c :: s) = c :: s := by
        refine skipWhitespace_of_head fun d hd => ?_
        cases hd
        exact not_or.1 hc
      rw [hskip, hskip]

/-! ## Words -/

variable {w : Text}

lemma quoted_append {q : Char} (hq : q ≠ '\\') (hw : Quotable q w) (rest : Text) :
    quoted q (w ++ q :: rest) = some (some (w, rest)) := by
  induction w using Quotable.induct with
  | case1 =>
    show quoted q (q :: rest) = _
    unfold quoted
    simp [hq]
  | case2 => exact absurd hw (by simp [Quotable])
  | case3 c w ih =>
    have h := ih (by simpa [Quotable] using hw)
    show Option.map _ (quoted q (w ++ q :: rest)) = _
    rw [h]
    rfl
  | case4 c w hno hno' ih =>
    have hne : c ≠ '\\' := by
      intro hc
      cases w with
      | nil => exact hno hc rfl
      | cons d w => exact hno' d w hc rfl
    have hw' : c ≠ q ∧ Quotable q w := by
      rw [Quotable] at hw
      · exact hw
      · exact hno
      · exact hno'
    have h := ih hw'.2
    show quoted q (c :: (w ++ q :: rest)) = _
    unfold quoted
    simp [hne, hw'.1, h]

lemma trimEnd_append {b : Text} (ne : w ≠ []) (hlast : ∀ c ∈ w.getLast?, c ≠ ' ' ∧ c ≠ '\t')
    (hb : Blank b) : trimEnd (w ++ b) = w := by
  have hdrop : ∀ s : Text, (s ++ b).reverse.dropWhile (fun c => c == ' ' || c == '\t') =
      s.reverse.dropWhile (fun c => c == ' ' || c == '\t') := by
    intro s
    rw [List.reverse_append]
    exact skipWhitespace_append (fun c hc => hb c (List.mem_reverse.1 hc)) s.reverse
  cases w with
  | nil => exact absurd rfl ne
  | cons c s =>
    show c :: ((s ++ b).reverse.dropWhile _).reverse = c :: s
    rw [hdrop s]
    have hsame : s.reverse.dropWhile (fun c => c == ' ' || c == '\t') = s.reverse := by
      refine skipWhitespace_of_head fun d hd => hlast d ?_
      rw [List.head?_reverse] at hd
      cases s with
      | nil => simp at hd
      | cons e s => simpa [List.getLast?_cons_cons] using hd
    rw [hsame, List.reverse_reverse]

def Ends (ends : Char → Bool) (rest : Text) : Prop := ∀ c ∈ rest.head?, ends c = true

variable {ends : Char → Bool} {rest : Text}

lemma span_append (hw : ∀ c ∈ w, ends c = false) (hrest : Ends ends rest) :
    (w ++ rest).takeWhile (!ends ·) = w ∧ (w ++ rest).dropWhile (!ends ·) = rest := by
  have hall : ∀ c ∈ w, (!ends c) = true := fun c hc => by rw [hw c hc]; rfl
  rw [List.takeWhile_append_of_pos hall, List.dropWhile_append_of_pos hall]
  cases rest with
  | nil => simp
  | cons c rest =>
    have hc : ¬ (!ends c) = true := by rw [hrest c rfl]; decide
    rw [List.takeWhile_cons_of_neg (p := (!ends ·)) hc, List.dropWhile_cons_of_neg (p := (!ends ·)) hc]
    simp

lemma Word.head {text : Text} (h : Word ends w text) :
    ∃ c s, text = c :: s ∧ c ≠ ' ' ∧ c ≠ '\t' ∧ (isQuote c = true ∨ ends c = false) := by
  cases h with
  | @quoted q w hq hw =>
    refine ⟨q, _, rfl, ?_, ?_, Or.inl hq⟩ <;> (intro h; rw [h] at hq; exact absurd hq (by decide))
  | bare hw =>
    cases w with
    | nil => exact absurd rfl hw.ne
    | cons c s =>
      have hblank := hw.notBlank c rfl
      exact ⟨c, s, rfl, hblank.1, hblank.2, Or.inr (hw.goesOn c List.mem_cons_self)⟩

variable {text : Text}

lemma parseWord_append {b : Text} (h : Word ends w text)
    (hends : ends ' ' = false ∧ ends '\t' = false) (hb : Blank b) (hrest : Ends ends rest) :
    parseWord ends (text ++ (b ++ rest)) = some (some (w, rest)) := by
  have hblank : ∀ c ∈ rest.head?, c ≠ ' ' ∧ c ≠ '\t' := by
    intro c hc
    have := hrest c hc
    refine ⟨fun h => ?_, fun h => ?_⟩
    · rw [h, hends.1] at this; exact absurd this (by decide)
    · rw [h, hends.2] at this; exact absurd this (by decide)
  cases h with
  | @quoted q w hq hw =>
    have hne : q ≠ '\\' := fun h => by rw [h] at hq; exact absurd hq (by decide)
    have htext : q :: (w ++ [q]) ++ (b ++ rest) = q :: (w ++ q :: (b ++ rest)) := by simp
    rw [htext]
    have hparse : parseQuotedString (q :: (w ++ q :: (b ++ rest))) = some (some (w, b ++ rest)) :=
      quoted_append hne hw (b ++ rest)
    unfold parseWord
    rw [hparse, if_pos (show isQuote (peek (q :: _)) = true from hq)]
    show some (some (w, skipWhitespace (b ++ rest))) = _
    rw [skipWhitespace_append hb, skipWhitespace_of_head hblank]
  | bare hw =>
    have hnot : ¬ isQuote (peek (w ++ (b ++ rest))) = true := by
      cases w with
      | nil => exact absurd rfl hw.ne
      | cons c s =>
        show ¬ isQuote c = true
        rw [hw.notQuote c rfl]
        decide
    have hall : ∀ c ∈ w ++ b, ends c = false := by
      intro c hc
      rcases List.mem_append.1 hc with hc | hc
      · exact hw.goesOn c hc
      · rcases hb c hc with hc | hc <;> (rw [hc]; first | exact hends.1 | exact hends.2)
    have hspan := span_append hall hrest
    unfold parseWord
    rw [if_neg hnot, ← List.append_assoc, hspan.1, hspan.2, trimEnd_append hw.ne hw.last hb]

/-! ## Equations -/

lemma parseOp_symbol (op : Op) (s : Text)
    (h : op = .lessThan ∨ op = .greaterThan → peek s ≠ '=') :
    ∃ rest, parseOp (op.symbol ++ s) = some (op, rest) ∧
      (if peek rest = '=' then rest.drop 1 else rest) = s := by
  cases op with
  | equal => exact ⟨'=' :: s, rfl, rfl⟩
  | unequal => exact ⟨'=' :: s, rfl, rfl⟩
  | greaterThanOrEqual => exact ⟨'=' :: s, rfl, rfl⟩
  | lessThanOrEqual => exact ⟨'=' :: s, rfl, rfl⟩
  | greaterThan =>
    have hne := h (Or.inr rfl)
    refine ⟨s, ?_, if_neg hne⟩
    show some (if peek s = '=' then Op.greaterThanOrEqual else .greaterThan, s) = _
    rw [if_neg hne]
  | lessThan =>
    have hne := h (Or.inl rfl)
    refine ⟨s, ?_, if_neg hne⟩
    show some (if peek s = '=' then Op.lessThanOrEqual else .lessThan, s) = _
    rw [if_neg hne]

variable {a : Atom} {name word b' : Text}

lemma Spelled.fIsPattern {b : Text} (h : Spelled a name text word b b') :
    ((a.op = .equal || a.op = .unequal) && isPattern text) = decide a.HasPattern := by
  have htext := h.hvalue
  rw [Bool.eq_iff_iff, decide_eq_true_iff]
  unfold Atom.HasPattern
  cases hv : a.value with
  | string v =>
    rw [hv] at htext
    cases htext with
    | string => simp
  | number n =>
    rw [hv] at htext
    rw [isPattern_of_text htext]
    simp

lemma Spelled.newEquation {b s' : Text} (h : Spelled a name text word b b') (memory : ℕ → ℤ)
    (hs' : Blank s') (hrest : Ends endsValue rest) :
    ∃ e : Equation, e.Names a ∧ Query.newEquation memory
      (name ++ (b ++ (a.op.symbol ++ (b' ++ (word ++ (s' ++ rest)))))) = some (some e, rest) := by
  obtain ⟨c, t, hword, hblank⟩ := h.hword.head
  have hsymbol : ∀ s, Ends endsAttribute (a.op.symbol ++ s) ∧
      (peek (a.op.symbol ++ s) = '=' ∨ peek (a.op.symbol ++ s) = '<' ∨
        peek (a.op.symbol ++ s) = '>' ∨ peek (a.op.symbol ++ s) = '!') := by
    intro s
    cases a.op <;> exact ⟨fun c hc => by cases hc; rfl, by simp [Op.symbol, peek]⟩
  have hname := parseWord_append h.hname (by decide) h.before
    (hsymbol (b' ++ (word ++ (s' ++ rest)))).1
  have hvalue := parseWord_append h.hword (by decide) hs' hrest
  have hpeek : peek (b' ++ (word ++ (s' ++ rest))) = peek (b' ++ word) := by
    rw [hword]
    cases b' <;> rfl
  obtain ⟨rest', hop, hdrop⟩ := parseOp_symbol a.op (b' ++ (word ++ (s' ++ rest)))
    fun ho => by rw [hpeek]; exact h.notEqual ho
  have hskip : skipWhitespace (b' ++ (word ++ (s' ++ rest))) = word ++ (s' ++ rest) := by
    rw [skipWhitespace_append h.behind]
    refine skipWhitespace_of_head fun d hd => ?_
    rw [hword] at hd
    cases hd
    exact ⟨hblank.1, hblank.2.1⟩
  have hcopy : ∀ s : Text, s.length < 256 → copyString s = some s := fun s hs =>
    if_neg (by unfold inodeFileNameLength; omega)
  have hpattern := h.fIsPattern
  unfold Query.newEquation
  rw [hname]
  dsimp only
  rw [if_neg (fun hno => hno.2 (hsymbol _).2), if_neg h.notEmpty, hop]
  dsimp only
  rw [hdrop, hskip, hcopy _ h.short.1, hvalue]
  dsimp only
  rw [hcopy _ h.short.2]
  dsimp only
  rw [hpattern, if_neg fun hno => hno.2 (h.pattern (of_decide_eq_true hno.1))]
  exact ⟨_, {
    fAttribute     := rfl
    fOp            := rfl
    fString        := h.hvalue
    short          := h.short.2
    noNull         := h.noNull
    fIsPattern     := rfl
    fIsSpecialTime := rfl
    value          := fun type ht => absurd ht (by simp) }, rfl⟩

/-! ## Expressions -/

section

variable {memory : ℕ → ℤ}

lemma parseEquation_skip (fuel : ℕ) (s : Text) :
    parseEquation memory fuel (skipWhitespace s) = parseEquation memory fuel s := by
  cases fuel with
  | zero => unfold parseEquation; rfl
  | succ fuel =>
    unfold parseEquation
    dsimp only
    rw [skipWhitespace_idem]

lemma parseAnd_skip (fuel : ℕ) (s : Text) :
    parseAnd memory fuel (skipWhitespace s) = parseAnd memory fuel s := by
  cases fuel with
  | zero => unfold parseAnd; rfl
  | succ fuel =>
    unfold parseAnd
    rw [parseEquation_skip]

lemma parseOr_skip (fuel : ℕ) (s : Text) :
    parseOr memory fuel (skipWhitespace s) = parseOr memory fuel s := by
  cases fuel with
  | zero => unfold parseOr; rfl
  | succ fuel =>
    unfold parseOr
    rw [parseAnd_skip]

variable {fuel : ℕ}

lemma parseAndLoop_done (hf : 0 < fuel) (left : Term) (h : isOperator '&' rest = false) :
    parseAndLoop memory fuel left rest = some (some left, rest) := by
  obtain ⟨f, rfl⟩ : ∃ f, fuel = f + 1 := ⟨fuel - 1, by omega⟩
  unfold parseAndLoop
  rw [h]
  rfl

lemma parseOrLoop_done (hf : 0 < fuel) (left : Term) (h : isOperator '|' rest = false) :
    parseOrLoop memory fuel left rest = some (some left, rest) := by
  obtain ⟨f, rfl⟩ : ∃ f, fuel = f + 1 := ⟨fuel - 1, by omega⟩
  unfold parseOrLoop
  rw [h]
  rfl

/-- A factor is parsed with what is left behind it. -/
def ParsesFactor (memory : ℕ → ℤ) (R p : Inode → Prop) (s : Text) : Prop :=
  ∀ rest fuel, Ends endsValue rest → 4 * (s ++ rest).length + 2 ≤ fuel →
    ∃ term : Term, term.Means R p ∧ parseEquation memory fuel (s ++ rest) = some (some term, rest)

def ParsesAnd (memory : ℕ → ℤ) (R p : Inode → Prop) (s : Text) : Prop :=
  ∀ rest fuel, Ends endsValue rest → isOperator '&' rest = false →
    4 * (s ++ rest).length + 3 ≤ fuel →
    ∃ term : Term, term.Means R p ∧ parseAnd memory fuel (s ++ rest) = some (some term, rest)

/-- The loop of `ParseOr()` goes on behind the text. -/
def ParsesOr (memory : ℕ → ℤ) (R p : Inode → Prop) (s : Text) : Prop :=
  ∀ rest fuel, Ends endsValue rest → isOperator '&' rest = false →
    4 * (s ++ rest).length + 4 ≤ fuel →
    ∃ (term : Term) (fuel' : ℕ), term.Means R p ∧ 4 * rest.length + 1 ≤ fuel' ∧
      parseOr memory fuel (s ++ rest) = parseOrLoop memory fuel' term rest

def ParsesOrLoop (memory : ℕ → ℤ) (R p : Inode → Prop) (s : Text) : Prop :=
  ∀ (q : Inode → Prop) (left : Term), left.Means R q →
    ∀ rest fuel, Ends endsValue rest → isOperator '&' rest = false →
    4 * ('|' :: '|' :: (s ++ rest)).length + 1 ≤ fuel →
    ∃ (term : Term) (fuel' : ℕ), term.Means R (fun i => q i ∨ p i) ∧ 4 * rest.length + 1 ≤ fuel' ∧
      parseOrLoop memory fuel left ('|' :: '|' :: (s ++ rest)) = parseOrLoop memory fuel' term rest

/-- What the text of a level does to the parser. More may be added to a conjunction. -/
def Parses (memory : ℕ → ℤ) (R : Inode → Prop) : Level → (Inode → Prop) → Text → Prop
  | .factor, p, s => ParsesFactor memory R p s
  | .and, p, s => ParsesAnd memory R p s ∧ ∀ q s', ParsesAnd memory R q s' →
      ParsesAnd memory R (fun i => p i ∧ q i) (s ++ '&' :: '&' :: s')
  | .or, p, s => ParsesOr memory R p s ∧ ParsesOrLoop memory R p s

variable {R p q : Inode → Prop} {s s' t b : Text}

lemma ParsesFactor.toAnd (h : ParsesFactor memory R p s) : ParsesAnd memory R p s := by
  intro rest fuel hrest hop hf
  obtain ⟨f, rfl⟩ : ∃ f, fuel = f + 1 := ⟨fuel - 1, by omega⟩
  obtain ⟨term, hterm, hparse⟩ := h rest f hrest (by omega)
  refine ⟨term, hterm, ?_⟩
  unfold parseAnd
  rw [hparse]
  exact parseAndLoop_done (by omega) term hop

lemma ParsesFactor.and (h : ParsesFactor memory R p s) (h' : ParsesAnd memory R q s') :
    ParsesAnd memory R (fun i => p i ∧ q i) (s ++ '&' :: '&' :: s') := by
  intro rest fuel hrest hop hf
  have htext : s ++ '&' :: '&' :: s' ++ rest = s ++ '&' :: '&' :: (s' ++ rest) := by simp
  have hlen : (s ++ '&' :: '&' :: s' ++ rest).length = s.length + 2 + (s' ++ rest).length := by
    simp only [List.length_append, List.length_cons]
    omega
  rw [hlen] at hf
  rw [htext]
  obtain ⟨f, rfl⟩ : ∃ f, fuel = f + 2 := ⟨fuel - 2, by omega⟩
  obtain ⟨left, hleft, hparse⟩ := h ('&' :: '&' :: (s' ++ rest)) (f + 1)
    (fun c hc => by cases hc; rfl) (by
      simp only [List.length_append, List.length_cons] at hf ⊢
      omega)
  obtain ⟨right, hright, hparse'⟩ := h' rest f hrest hop (by omega)
  refine ⟨.operator .and left right, ⟨p, q, hleft, hright, fun i _ => Iff.rfl⟩, ?_⟩
  unfold parseAnd
  rw [hparse]
  dsimp only
  unfold parseAndLoop
  have hand : isOperator '&' ('&' :: '&' :: (s' ++ rest)) = true := rfl
  have hdrop : ('&' :: '&' :: (s' ++ rest)).drop 2 = s' ++ rest := rfl
  rw [if_pos hand, hdrop, hparse']
  exact parseAndLoop_done (by omega) _ hop

lemma ParsesAnd.toOr (h : ParsesAnd memory R p s) : ParsesOr memory R p s := by
  intro rest fuel hrest hop hf
  obtain ⟨f, rfl⟩ : ∃ f, fuel = f + 1 := ⟨fuel - 1, by omega⟩
  obtain ⟨term, hterm, hparse⟩ := h rest f hrest hop (by omega)
  refine ⟨term, f, hterm, ?_, ?_⟩
  · simp only [List.length_append] at hf
    omega
  · unfold parseOr
    rw [hparse]

lemma ParsesAnd.toOrLoop (h : ParsesAnd memory R p s) : ParsesOrLoop memory R p s := by
  intro q left hleft rest fuel hrest hop hf
  have hlen : ('|' :: '|' :: (s ++ rest)).length = (s ++ rest).length + 2 := rfl
  rw [hlen] at hf
  obtain ⟨f, rfl⟩ : ∃ f, fuel = f + 1 := ⟨fuel - 1, by omega⟩
  obtain ⟨right, hright, hparse⟩ := h rest f hrest hop (by omega)
  refine ⟨.operator .or left right, f, ⟨q, p, hleft, hright, fun i _ => Iff.rfl⟩, ?_, ?_⟩
  · simp only [List.length_append] at hf
    omega
  · rw [parseOrLoop]
    have hor : isOperator '|' ('|' :: '|' :: (s ++ rest)) = true := rfl
    have hdrop : ('|' :: '|' :: (s ++ rest)).drop 2 = s ++ rest := rfl
    rw [if_pos hor, hdrop, hparse]

lemma ParsesOr.or (h : ParsesOr memory R p s) (h' : ParsesOrLoop memory R q s') :
    ParsesOr memory R (fun i => p i ∨ q i) (s ++ '|' :: '|' :: s') := by
  intro rest fuel hrest hop hf
  have htext : s ++ '|' :: '|' :: s' ++ rest = s ++ '|' :: '|' :: (s' ++ rest) := by simp
  rw [htext] at hf ⊢
  obtain ⟨left, f, hleft, hf', hparse⟩ := h ('|' :: '|' :: (s' ++ rest)) fuel
    (fun c hc => by cases hc; rfl) rfl hf
  obtain ⟨term, f', hterm, hf'', hparse'⟩ := h' p left hleft rest f hrest hop hf'
  exact ⟨term, f', hterm, hf'', hparse.trans hparse'⟩

lemma ParsesOrLoop.or (h : ParsesOrLoop memory R p s) (h' : ParsesOrLoop memory R q s') :
    ParsesOrLoop memory R (fun i => p i ∨ q i) (s ++ '|' :: '|' :: s') := by
  intro r left hleft rest fuel hrest hop hf
  have htext : s ++ '|' :: '|' :: s' ++ rest = s ++ '|' :: '|' :: (s' ++ rest) := by simp
  rw [htext] at hf ⊢
  obtain ⟨term, f, hterm, hf', hparse⟩ := h r left hleft ('|' :: '|' :: (s' ++ rest)) fuel
    (fun c hc => by cases hc; rfl) rfl hf
  obtain ⟨term', f', hterm', hf'', hparse'⟩ := h' _ term hterm rest f hrest hop hf'
  exact ⟨term', f', hterm'.congr fun i _ => or_assoc.symm, hf'', hparse.trans hparse'⟩

section

variable (h : ParsesOr memory R p t)
include h

lemma ParsesOr.parseGroup (hs' : Blank s') (hrest : Ends endsValue rest) (negated : Bool)
    (hf : 4 * ('(' :: (t ++ ')' :: (s' ++ rest))).length + 1 ≤ fuel) :
    ∃ term : Term, term.Means R (fun i => if negated then ¬ p i else p i) ∧
      Query.parseGroup memory fuel negated ('(' :: (t ++ ')' :: (s' ++ rest))) =
        some (some term, rest) := by
  have hlen : ('(' :: (t ++ ')' :: (s' ++ rest))).length =
      (t ++ ')' :: (s' ++ rest)).length + 1 := rfl
  rw [hlen] at hf
  obtain ⟨f, rfl⟩ : ∃ f, fuel = f + 1 := ⟨fuel - 1, by omega⟩
  obtain ⟨term, f', hterm, hf', hparse⟩ := h (')' :: (s' ++ rest)) f
    (fun c hc => by cases hc; rfl) rfl (by omega)
  have hdone : parseOrLoop memory f' term (')' :: (s' ++ rest)) =
      some (some term, ')' :: (s' ++ rest)) := parseOrLoop_done (by omega) term rfl
  have hskip : skipWhitespace (s' ++ rest) = rest := by
    rw [skipWhitespace_append hs']
    refine skipWhitespace_of_head fun c hc => ⟨fun hb => ?_, fun hb => ?_⟩
    · have := hrest c hc
      rw [hb] at this
      exact absurd this (by decide)
    · have := hrest c hc
      rw [hb] at this
      exact absurd this (by decide)
  have hdrop : ('(' :: (t ++ ')' :: (s' ++ rest))).drop 1 = t ++ ')' :: (s' ++ rest) := rfl
  have hbracket : skipWhitespace (')' :: (s' ++ rest)) = ')' :: (s' ++ rest) := rfl
  have hpeek : peek (')' :: (s' ++ rest)) = ')' := rfl
  have hdrop' : (')' :: (s' ++ rest)).drop 1 = s' ++ rest := rfl
  unfold Query.parseGroup
  rw [hdrop, parseOr_skip, hparse, hdone]
  dsimp only
  rw [hbracket, if_neg (not_not.2 hpeek), hdrop', hskip]
  cases negated with
  | true => exact ⟨term.complement, hterm.complement, rfl⟩
  | false => exact ⟨term, hterm, rfl⟩

lemma ParsesOr.group (hs : Blank s) (hs' : Blank s') :
    ParsesFactor memory R p (s ++ '(' :: (t ++ ')' :: s')) := by
  intro rest fuel hrest hf
  have htext : s ++ '(' :: (t ++ ')' :: s') ++ rest = s ++ '(' :: (t ++ ')' :: (s' ++ rest)) := by
    simp
  rw [htext] at hf ⊢
  rw [List.length_append] at hf
  obtain ⟨f, rfl⟩ : ∃ f, fuel = f + 1 := ⟨fuel - 1, by omega⟩
  obtain ⟨term, hterm, hparse⟩ := h.parseGroup hs' hrest false (by omega : _ ≤ f)
  have hskip : skipWhitespace (s ++ '(' :: (t ++ ')' :: (s' ++ rest))) =
      '(' :: (t ++ ')' :: (s' ++ rest)) := skipWhitespace_append hs _
  refine ⟨term, hterm, ?_⟩
  unfold parseEquation
  rw [hskip]
  exact hparse

lemma ParsesOr.not (hs : Blank s) (hb : Blank b) (hs' : Blank s') :
    ParsesFactor memory R (fun i => ¬ p i) (s ++ '!' :: (b ++ '(' :: (t ++ ')' :: s'))) := by
  intro rest fuel hrest hf
  have htext : s ++ '!' :: (b ++ '(' :: (t ++ ')' :: s')) ++ rest =
      s ++ '!' :: (b ++ '(' :: (t ++ ')' :: (s' ++ rest))) := by simp
  rw [htext] at hf ⊢
  rw [List.length_append, List.length_cons, List.length_append] at hf
  obtain ⟨f, rfl⟩ : ∃ f, fuel = f + 1 := ⟨fuel - 1, by omega⟩
  obtain ⟨term, hterm, hparse⟩ := h.parseGroup hs' hrest true (by omega : _ ≤ f)
  have hskip : skipWhitespace (s ++ '!' :: (b ++ '(' :: (t ++ ')' :: (s' ++ rest)))) =
      '!' :: (b ++ '(' :: (t ++ ')' :: (s' ++ rest))) := skipWhitespace_append hs _
  have hdrop : ('!' :: (b ++ '(' :: (t ++ ')' :: (s' ++ rest)))).drop 1 =
      b ++ '(' :: (t ++ ')' :: (s' ++ rest)) := rfl
  have hskip' : skipWhitespace (b ++ '(' :: (t ++ ')' :: (s' ++ rest))) =
      '(' :: (t ++ ')' :: (s' ++ rest)) := skipWhitespace_append hb _
  have hpeek : peek ('!' :: (b ++ '(' :: (t ++ ')' :: (s' ++ rest)))) = '!' := rfl
  have hpeek' : peek ('(' :: (t ++ ')' :: (s' ++ rest))) = '(' := rfl
  refine ⟨term, hterm, ?_⟩
  unfold parseEquation
  rw [hskip]
  dsimp only
  rw [if_pos hpeek, hdrop, hskip', if_neg (not_not.2 hpeek')]
  exact hparse

end

lemma Spelled.parsesFactor (h : Spelled a name text word b b') (hs : Blank s) (hs' : Blank s')
    (hR : ∀ inode, R inode → a.Ready inode) :
    ParsesFactor memory R a.Holds (s ++ (name ++ b ++ a.op.symbol ++ b' ++ word) ++ s') := by
  intro rest fuel hrest hf
  obtain ⟨f, rfl⟩ : ∃ f, fuel = f + 1 := ⟨fuel - 1, by omega⟩
  obtain ⟨e, he, hparse⟩ := h.newEquation memory hs' hrest
  have htext : s ++ (name ++ b ++ a.op.symbol ++ b' ++ word) ++ s' ++ rest =
      s ++ (name ++ (b ++ (a.op.symbol ++ (b' ++ (word ++ (s' ++ rest)))))) := by simp
  obtain ⟨c, t, hname, hblank, hblank', hc⟩ := h.hname.head
  have hskip : skipWhitespace
      (s ++ (name ++ (b ++ (a.op.symbol ++ (b' ++ (word ++ (s' ++ rest))))))) =
      name ++ (b ++ (a.op.symbol ++ (b' ++ (word ++ (s' ++ rest))))) := by
    rw [skipWhitespace_append hs, hname]
    refine skipWhitespace_of_head fun d hd => ?_
    cases hd
    exact ⟨hblank, hblank'⟩
  have hpeek : ∀ u, peek (name ++ u) = c := fun u => by rw [hname]; rfl
  have hnot : c ≠ '!' := by
    intro hcc
    rw [hcc] at hc
    exact absurd hc (by decide)
  have hbracket : c ≠ '(' ∧ c ≠ ')' := by
    have := h.notBracket
    rw [hname] at this
    exact this
  refine ⟨.equation e, ⟨a, he, fun i hi => ⟨hR i hi, Iff.rfl⟩⟩, ?_⟩
  unfold parseEquation
  rw [htext, hskip]
  dsimp only
  rw [hpeek, if_neg hnot, if_neg hbracket.2, if_neg hbracket.1, hparse]
  rfl

lemma Written.parses (memory : ℕ → ℤ) {l : Level} {e : Expr} (h : Written l e t)
    (hR : ∀ inode, R inode → ∀ a ∈ e.atoms, a.Ready inode) :
    Parses memory R l (fun inode => e.Holds inode) t := by
  induction h with
  | equation h hs hs' =>
    exact h.parsesFactor hs hs' fun i hi => hR i hi _ List.mem_cons_self
  | group h hs hs' ih => exact (ih hR).1.group hs hs'
  | not h hs hb hs' ih => exact (ih hR).1.not hs hb hs'
  | toAnd h ih => exact ⟨(ih hR).toAnd, fun q s' h' => (ih hR).and h'⟩
  | @and e e' t t' h h' ih ih' =>
    have hl := ih fun i hi a ha => hR i hi a (List.mem_append_left _ ha)
    have hr := ih' fun i hi a ha => hR i hi a (List.mem_append_right _ ha)
    refine ⟨hl.2 _ _ hr.1, fun q s' hq => ?_⟩
    -- the rest is parsed by the right side first
    have htext : t ++ '&' :: '&' :: t' ++ '&' :: '&' :: s' =
        t ++ '&' :: '&' :: (t' ++ '&' :: '&' :: s') := by simp
    rw [htext]
    intro rest fuel hrest hop hf
    obtain ⟨term, hterm, hparse⟩ := hl.2 _ _ (hr.2 _ _ hq) rest fuel hrest hop hf
    exact ⟨term, hterm.congr fun i _ => and_assoc, hparse⟩
  | toOr h ih => exact ⟨(ih hR).1.toOr, (ih hR).1.toOrLoop⟩
  | or h h' ih ih' =>
    have hl := ih fun i hi a ha => hR i hi a (List.mem_append_left _ ha)
    have hr := ih' fun i hi a ha => hR i hi a (List.mem_append_right _ ha)
    exact ⟨hl.1.or hr.2, hl.2.or hr.2⟩

end

/-- The constructor makes a term of every text of an expression. It matches the inodes that the
expression holds for, one after the other, whatever the scores are. -/
theorem expression_matches (memory : ℕ → ℤ) {e : Expr} {text : Text} (h : Written .or e text) :
    ∃ term, expression memory text = some (some term, []) ∧
      ∀ inodes : List Inode, (∀ inode ∈ inodes, ∀ a ∈ e.atoms, a.Ready inode) →
        List.Forall₂ (fun inode result => result = true ↔ e.Holds inode) inodes
          (term.matchAll inodes) := by
  let R := fun inode : Inode => ∀ a ∈ e.atoms, a.Ready inode
  have hR : ∀ inode, R inode → ∀ a ∈ e.atoms, a.Ready inode := fun _ h => h
  obtain ⟨term, fuel, hterm, hfuel, hparse⟩ := (h.parses memory hR).1 [] (4 * (text.length + 1))
    (fun c hc => by cases hc) rfl (by rw [List.append_nil]; omega)
  refine ⟨term, ?_, fun inodes hinodes => hterm.matchAll hinodes⟩
  unfold expression
  rw [List.append_nil] at hparse
  rw [hparse]
  exact parseOrLoop_done (by omega) term rfl

/-- `!(a<1)||b=="x y"` -/
def eitherText : Text :=
  ['!', '(', 'a', '<', '1', ')', '|', '|', 'b', '=', '=', '"', 'x', ' ', 'y', '"']

def eitherExpr : Expr :=
  .or (.not (.equation ⟨['a'], .lessThan, .number 1⟩))
    (.equation ⟨['b'], .equal, .string ['x', ' ', 'y']⟩)

def eitherInode : Inode where
  name := ['f']
  size := 5
  lastModified := 7 * 2 ^ 16
  attributes name :=
    if name = ['a'] then some ⟨.int32, true, .number 0⟩
    else if name = ['b'] then some ⟨.string, true, .string ['x', ' ', 'y', '\x00'] []⟩
    else none

lemma bare_word (h : w ≠ [] ∧ (∀ c ∈ w, ends c = false) ∧
    (∀ c ∈ w, isQuote c = false ∧ c ≠ ' ' ∧ c ≠ '\t')) : Bare ends w where
  ne := h.1
  goesOn := h.2.1
  notQuote := fun c hc => (h.2.2 c (List.mem_of_mem_head? hc)).1
  notBlank := fun c hc => (h.2.2 c (List.mem_of_mem_head? hc)).2
  last := fun c hc => (h.2.2 c (List.mem_of_mem_getLast? hc)).2

lemma written_eitherText : Written .or eitherExpr eitherText := by
  have hblank : Blank [] := fun c hc => absurd hc (List.not_mem_nil)
  have ha : Spelled ⟨['a'], .lessThan, .number 1⟩ ['a'] ['1'] ['1'] [] [] := {
    hname      := .bare (bare_word (by simp [endsAttribute, isQuote]))
    notBracket := by decide
    notEmpty   := by decide
    hvalue     := .positive (@Numeral.decimal ['1'] [1] (by decide) (by decide) (by decide))
    hword      := .bare (bare_word (by simp [endsValue, isQuote]))
    before     := hblank
    behind     := hblank
    notEqual   := by decide
    short      := by decide
    noNull     := by decide
    pattern    := fun h => h.2.elim }
  have hb : Spelled ⟨['b'], .equal, .string ['x', ' ', 'y']⟩ ['b'] ['x', ' ', 'y']
      ['"', 'x', ' ', 'y', '"'] [] [] := {
    hname      := .bare (bare_word (by simp [endsAttribute, isQuote]))
    notBracket := by decide
    notEmpty   := by decide
    hvalue     := .string
    hword      := .quoted rfl (by simp [Quotable])
    before     := hblank
    behind     := hblank
    notEqual   := by decide
    short      := by decide
    noNull     := by decide
    pattern    := fun _ => by decide }
  exact .or (.toOr (.toAnd (.not (.toOr (.toAnd (.equation ha hblank hblank))) hblank hblank hblank)))
    (.toOr (.toAnd (.equation hb hblank hblank)))

lemma ready_eitherInode : ∀ a ∈ eitherExpr.atoms, a.Ready eitherInode := by
  have hvalid : eitherInode.Valid := {
    name         := by decide
    size         := ⟨by decide, by decide⟩
    lastModified := ⟨by decide, by decide⟩
    attributes   := by
      intro name a ha
      unfold eitherInode at ha
      dsimp only at ha
      split_ifs at ha
      · cases ha
        exact ⟨by decide, by decide⟩
      · cases ha
        exact ⟨Or.inl rfl, by decide⟩
      · simp at ha }
  intro a ha
  refine ⟨hvalid, ?_⟩
  rcases List.mem_cons.1 ha with ha | ha
  · subst ha
    exact ⟨⟨by decide, by decide⟩, fun _ => Or.inr (Or.inr ⟨by decide, by decide⟩)⟩
  · rw [List.mem_singleton.1 ha]
    exact ⟨trivial, fun _ => rfl⟩

theorem expression_matches_either :
    ∃ term, expression (fun _ => 0) eitherText = some (some term, []) ∧
      List.Forall₂ (fun inode result => result = true ↔ eitherExpr.Holds inode) [eitherInode]
        (term.matchAll [eitherInode]) := by
  obtain ⟨term, hparse, hmatch⟩ := expression_matches (fun _ => 0) written_eitherText
  refine ⟨term, hparse, hmatch [eitherInode] fun inode hinode => ?_⟩
  rw [List.mem_singleton.1 hinode]
  exact ready_eitherInode

/-- A string of 256 characters is too long for `CopyString()`. -/
theorem not_expression_matches :
    ¬ ∀ value : Text, (∀ c ∈ value, c = 'v') →
      ∃ term, expression (fun _ => 0) ("name==".toList ++ value) = some (some term, []) := by
  intro h
  obtain ⟨term, hterm⟩ := h (List.replicate 256 'v') fun c hc => List.eq_of_mem_replicate hc
  have hnone : (expression (fun _ => 0) ("name==".toList ++ List.replicate 256 'v')).map
      (fun r => r.1.isNone) = some true := by decide +kernel
  rw [hterm] at hnone
  simp at hnone

end Haiku.Query
