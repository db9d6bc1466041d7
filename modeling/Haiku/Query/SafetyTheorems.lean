import Haiku.Query.Parser

/-!
# Malformed texts

Which calls of the parser go wrong, and that it ends with a term or without one if it makes none of
these.
-/

namespace Haiku.Query

variable {memory : ℕ → ℤ} {fuel fuel' : ℕ} {s t rest : Text}

/-! ## Quotes -/

/-- A quote starts the text, and its end is missing right behind a backslash. -/
def BreaksOff (start : Text) : Prop := isQuote (peek start) = true ∧ parseQuotedString start = none

/-- The value of an equation starts at `v`. -/
def ValueAt (expr v : Text) : Prop :=
  ∃ word string op rest, parseWord endsAttribute expr = some (some (word, string)) ∧ word ≠ [] ∧
    word.length < inodeFileNameLength ∧ parseOp string = some (op, rest) ∧
    v = skipWhitespace (if peek rest = '=' then rest.drop 1 else rest)

lemma parseWord_eq_none {ends : Char → Bool} : parseWord ends s = none ↔ BreaksOff s := by
  unfold parseWord BreaksOff
  by_cases h : isQuote (peek s) = true
  · simp [h]
  · simp [h]

lemma peek_of_parseOp {op : Op} (h : parseOp s = some (op, rest)) :
    peek s = '=' ∨ peek s = '<' ∨ peek s = '>' ∨ peek s = '!' := by
  unfold parseOp at h
  split at h
  · exact Or.inl rfl
  · exact Or.inr (Or.inr (Or.inl rfl))
  · exact Or.inr (Or.inl rfl)
  · exact Or.inr (Or.inr (Or.inr rfl))
  · cases h

lemma copyString_of_lt {w : Text} (h : w.length < inodeFileNameLength) : copyString w = some w :=
  if_neg (by omega)

lemma newEquation_eq_none :
    newEquation memory s = none ↔ BreaksOff s ∨ ∃ v, ValueAt s v ∧ BreaksOff v := by
  constructor
  · intro h
    unfold newEquation at h
    split at h
    next hword => exact Or.inl (parseWord_eq_none.1 hword)
    · cases h
    next word string hword =>
      split at h
      · cases h
      split at h
      · cases h
      next hempty =>
        split at h
        · cases h
        next op rest hop =>
          dsimp only at h
          split at h
          · cases h
          next hcopy =>
            have hshort : word.length < inodeFileNameLength := by
              unfold copyString at hcopy
              split at hcopy
              · cases hcopy
              · omega
            split at h
            next hvalue =>
              exact Or.inr ⟨_, ⟨word, string, op, rest, hword, hempty, hshort, hop, rfl⟩,
                parseWord_eq_none.1 hvalue⟩
            · cases h
            · split at h
              · cases h
              · split at h <;> cases h
  · rintro (h | ⟨v, ⟨word, string, op, rest, hword, hempty, hshort, hop, rfl⟩, h⟩)
    · unfold newEquation
      rw [parseWord_eq_none.2 h]
    · unfold newEquation
      rw [hword]
      dsimp only
      have hpeek := peek_of_parseOp hop
      rw [if_neg (by tauto), if_neg hempty, hop]
      dsimp only
      rw [copyString_of_lt hshort]
      dsimp only
      rw [parseWord_eq_none.2 h]

/-! ## What is left is not longer -/

lemma length_skipWhitespace_le (s : Text) : (skipWhitespace s).length ≤ s.length :=
  (List.dropWhile_suffix _).length_le

lemma length_quoted_lt {quote : Char} {word : Text} (h : quoted quote s = some (some (word, rest))) :
    rest.length < s.length := by
  induction s using quoted.induct quote generalizing word with
  | case1 => cases h
  | case2 => cases h
  | case3 c s ih =>
    rw [quoted] at h
    obtain ⟨r, hr, hmap⟩ := Option.map_eq_some_iff.1 h
    obtain ⟨⟨word', rest'⟩, hr', heq⟩ := Option.map_eq_some_iff.1 hmap
    cases heq
    have := ih (hr.trans (congrArg some hr'))
    simp only [List.length_cons]
    omega
  | case4 s hne hne' =>
    rw [quoted, if_pos rfl] at h
    · cases h
      exact Nat.lt_succ_self _
    · exact hne
    · exact hne'
  | case5 c s hne hne' hc ih =>
    rw [quoted, if_neg hc] at h
    · obtain ⟨r, hr, hmap⟩ := Option.map_eq_some_iff.1 h
      obtain ⟨⟨word', rest'⟩, hr', heq⟩ := Option.map_eq_some_iff.1 hmap
      cases heq
      have := ih (hr.trans (congrArg some hr'))
      simp only [List.length_cons]
      omega
    · exact hne
    · exact hne'

lemma length_parseWord_le {ends : Char → Bool} {word : Text}
    (h : parseWord ends s = some (some (word, rest))) : rest.length ≤ s.length := by
  unfold parseWord at h
  split at h
  · obtain ⟨r, hr, hmap⟩ := Option.map_eq_some_iff.1 h
    obtain ⟨⟨word', rest'⟩, hr', heq⟩ := Option.map_eq_some_iff.1 hmap
    cases heq
    have hlt := length_quoted_lt (hr.trans (congrArg some hr'))
    have hskip := length_skipWhitespace_le rest'
    rw [List.length_drop] at hlt
    omega
  · cases h
    exact (List.dropWhile_suffix _).length_le

lemma length_newEquation_le {e : Option Equation} (h : newEquation memory s = some (e, rest)) :
    rest.length ≤ s.length := by
  unfold newEquation at h
  split at h
  · cases h
  · cases h
    exact le_rfl
  next word string hword =>
    have hstring := length_parseWord_le hword
    split at h
    · cases h
      exact hstring
    split at h
    · cases h
      exact le_rfl
    split at h
    · cases h
      split
      · exact le_rfl
      · exact hstring
    next op rest' hop =>
      have hrest : rest'.length ≤ string.length := by
        unfold parseOp at hop
        split at hop <;> cases hop <;> simp
      have hskip := length_skipWhitespace_le (if peek rest' = '=' then rest'.drop 1 else rest')
      have hdrop : (if peek rest' = '=' then rest'.drop 1 else rest').length ≤ rest'.length := by
        split <;> simp
      dsimp only at h
      split at h
      · cases h
        exact le_rfl
      split at h
      · cases h
      · cases h
        exact le_rfl
      next value string' hvalue =>
        have hstring' := length_parseWord_le hvalue
        have hle : string'.length ≤ s.length := by omega
        split at h
        · cases h
          exact le_rfl
        · split at h <;> cases h <;> exact hle

/-! ## Calls -/

/-- The calls of the parser, with the texts they get, and the term that a loop has so far -/
inductive Call
  | equation (expr : Text)
  | group (negated : Bool) (expr : Text)
  | junction (op : Junction) (expr : Text)
  | loop (op : Junction) (left : Term) (expr : Text)

def Junction.symbol : Junction → Char
  | .and => '&'
  | .or => '|'

def Junction.first : Junction → Text → Call
  | .and, expr => .equation expr
  | .or, expr => .junction .and expr

namespace Call

def run (memory : ℕ → ℤ) (fuel : ℕ) : Call → Option (Option Term × Text)
  | .equation expr => parseEquation memory fuel expr
  | .group negated expr => parseGroup memory fuel negated expr
  | .junction .and expr => parseAnd memory fuel expr
  | .junction .or expr => parseOr memory fuel expr
  | .loop .and left expr => parseAndLoop memory fuel left expr
  | .loop .or left expr => parseOrLoop memory fuel left expr

/-- A call, with the results of the calls that it makes -/
def body (memory : ℕ → ℤ) (call : Call → Option (Option Term × Text)) :
    Call → Option (Option Term × Text)
  | .equation expr =>
    let expr := skipWhitespace expr
    if peek expr = '!' then
      let expr := skipWhitespace (expr.drop 1)
      if peek expr ≠ '(' then some (none, expr) else call (.group true expr)
    else if peek expr = ')' then some (none, expr)
    else if peek expr = '(' then call (.group false expr)
    else (newEquation memory expr).map fun (e, expr) => (e.map Term.equation, expr)
  | .group negated expr =>
    match call (.junction .or (skipWhitespace (expr.drop 1))) with
    | none => none
    | some (term, expr) =>
      let expr := skipWhitespace expr
      if peek expr ≠ ')' then some (none, expr)
      else
        let rest := skipWhitespace (expr.drop 1)
        match term, negated with
        | none, true => none
        | none, false => some (none, rest)
        | some term, true => some (some term.complement, rest)
        | some term, false => some (some term, rest)
  | .junction op expr =>
    match call (op.first expr) with
    | none => none
    | some (none, expr) => some (none, expr)
    | some (some left, expr) => call (.loop op left expr)
  | .loop op left expr =>
    if isOperator op.symbol expr then
      match call (.junction .and (expr.drop 2)) with
      | none => none
      | some (none, expr) => some (none, expr)
      | some (some right, expr) => call (.loop op (.operator op left right) expr)
    else some (some left, expr)

lemma run_zero (c : Call) : c.run memory 0 = none := by
  rcases c with s | ⟨negated, s⟩ | ⟨_ | _, s⟩ | ⟨_ | _, left, s⟩ <;> rfl

lemma run_succ (c : Call) : c.run memory (fuel + 1) = c.body memory (run memory fuel) := by
  rcases c with s | ⟨negated, s⟩ | ⟨_ | _, s⟩ | ⟨_ | _, left, s⟩ <;> rfl

variable {c c' : Call} {r r' : Option Term × Text}

lemma body_mono {f g : Call → Option (Option Term × Text)}
    (hfg : ∀ c r, f c = some r → g c = some r) (h : c.body memory f = some r) :
    c.body memory g = some r := by
  rcases c with s | ⟨negated, s⟩ | ⟨op, s⟩ | ⟨op, left, s⟩
  · simp only [body] at h ⊢
    split_ifs at h ⊢
    · exact h
    · exact hfg _ _ h
    · exact h
    · exact hfg _ _ h
    · exact h
  · simp only [body] at h ⊢
    cases hf : f (.junction .or (skipWhitespace (s.drop 1))) with
    | none =>
      rw [hf] at h
      cases h
    | some r₁ =>
      rw [hfg _ _ hf]
      rw [hf] at h
      exact h
  · simp only [body] at h ⊢
    cases hf : f (op.first s) with
    | none =>
      rw [hf] at h
      cases h
    | some r₁ =>
      rw [hfg _ _ hf]
      rw [hf] at h
      match r₁ with
      | (none, _) => exact h
      | (some left, _) => exact hfg _ _ h
  · simp only [body] at h ⊢
    split_ifs at h ⊢ with hop
    · cases hf : f (.junction .and (s.drop 2)) with
      | none =>
      rw [hf] at h
      cases h
      | some r₁ =>
        rw [hfg _ _ hf]
        rw [hf] at h
        match r₁ with
        | (none, _) => exact h
        | (some right, _) => exact hfg _ _ h
    · exact h

lemma run_mono (hle : fuel ≤ fuel') (h : c.run memory fuel = some r) :
    c.run memory fuel' = some r := by
  have hsucc : ∀ n c r, run memory n c = some r → run memory (n + 1) c = some r := by
    intro n
    induction n with
    | zero =>
      intro c r h
      rw [run_zero] at h
      cases h
    | succ n ih =>
      intro c r h
      rw [run_succ] at h ⊢
      exact body_mono ih h
  induction hle with
  | refl => exact h
  | step _ ih => exact hsucc _ _ _ ih

def Returns (memory : ℕ → ℤ) (c : Call) (r : Option Term × Text) : Prop :=
  ∃ fuel, c.run memory fuel = some r

lemma Returns.unique (h : c.Returns memory r) (h' : c.run memory fuel = some r') : r' = r := by
  obtain ⟨n, hn⟩ := h
  have hmax := run_mono (Nat.le_max_left n fuel) hn
  exact Option.some.inj ((run_mono (Nat.le_max_right n fuel) h').symm.trans hmax)

inductive Makes (memory : ℕ → ℤ) : Call → Call → Prop
  | negated {s : Text} (h : peek (skipWhitespace s) = '!')
    (h' : peek (skipWhitespace ((skipWhitespace s).drop 1)) = '(') :
    Makes memory (.equation s) (.group true (skipWhitespace ((skipWhitespace s).drop 1)))
  | group {s : Text} (h : peek (skipWhitespace s) = '(') :
    Makes memory (.equation s) (.group false (skipWhitespace s))
  | inner {negated : Bool} {s : Text} :
    Makes memory (.group negated s) (.junction .or (skipWhitespace (s.drop 1)))
  | first {op : Junction} {s : Text} : Makes memory (.junction op s) (op.first s)
  | next {op : Junction} {left : Term} {s rest : Text}
    (h : Returns memory (op.first s) (some left, rest)) :
    Makes memory (.junction op s) (.loop op left rest)
  | right {op : Junction} {left : Term} {s : Text}
    (h : isOperator op.symbol s = true) :
    Makes memory (.loop op left s) (.junction .and (s.drop 2))
  | again {op : Junction} {left right : Term} {s rest : Text}
    (h : isOperator op.symbol s = true)
    (h' : Returns memory (.junction .and (s.drop 2)) (some right, rest)) :
    Makes memory (.loop op left s) (.loop op (.operator op left right) rest)

/-- A call goes wrong: an equation in which a quote breaks off, or a negated bracket that closes without
a term in it. -/
def Breaks (memory : ℕ → ℤ) : Call → Prop
  | .equation s =>
    peek (skipWhitespace s) ≠ '!' ∧ peek (skipWhitespace s) ≠ ')' ∧ peek (skipWhitespace s) ≠ '(' ∧
      (BreaksOff (skipWhitespace s) ∨ ∃ v, ValueAt (skipWhitespace s) v ∧ BreaksOff v)
  | .group true s => ∃ rest, Returns memory (.junction .or (skipWhitespace (s.drop 1))) (none, rest) ∧
    peek (skipWhitespace rest) = ')'
  | _ => False

lemma run_of_breaks (h : c.Breaks memory) : c.run memory fuel = none := by
  cases fuel with
  | zero => exact run_zero c
  | succ fuel =>
    rw [run_succ]
    match c, h with
    | .equation s, ⟨hnot, hclose, hopen, h⟩ =>
      simp only [body]
      rw [if_neg hnot, if_neg hclose, if_neg hopen, newEquation_eq_none.2 h]
      rfl
    | .group true s, ⟨rest, hreturns, hclose⟩ =>
      simp only [body]
      cases hr : run memory fuel (.junction .or (skipWhitespace (s.drop 1))) with
      | none => rfl
      | some r =>
        cases hreturns.unique hr
        simp [hclose]

lemma run_of_makes (h : Makes memory c c') (hnone : ∀ fuel, c'.run memory fuel = none) :
    c.run memory fuel = none := by
  cases fuel with
  | zero => exact run_zero c
  | succ fuel =>
    rw [run_succ]
    cases h with
    | negated h h' =>
      simp only [body]
      rw [if_pos h, if_neg (not_not_intro h'), hnone]
    | group h =>
      simp only [body]
      rw [if_neg (by rw [h]; decide), if_neg (by rw [h]; decide), if_pos h, hnone]
    | inner =>
      simp only [body]
      rw [hnone]
    | first =>
      simp only [body]
      rw [hnone]
    | @next op left s rest h =>
      simp only [body]
      cases hr : run memory fuel (op.first s) with
      | none => rfl
      | some r =>
        cases h.unique hr
        exact hnone fuel
    | right h =>
      simp only [body]
      rw [if_pos h, hnone]
    | @again op left right s rest h h' =>
      simp only [body]
      rw [if_pos h]
      cases hr : run memory fuel (.junction .and (s.drop 2)) with
      | none => rfl
      | some r =>
        cases h'.unique hr
        exact hnone fuel

lemma run_of_reaches (h : Relation.ReflTransGen (Makes memory) c c') (hbreaks : c'.Breaks memory)
    (fuel : ℕ) : c.run memory fuel = none := by
  induction h using Relation.ReflTransGen.head_induction_on generalizing fuel with
  | refl => exact run_of_breaks hbreaks
  | head hmakes _ ih => exact run_of_makes hmakes ih

def text : Call → Text
  | .equation expr => expr
  | .group _ expr => expr
  | .junction _ expr => expr
  | .loop _ _ expr => expr

lemma length_le (h : c.run memory fuel = some r) : r.2.length ≤ c.text.length := by
  induction fuel generalizing c r with
  | zero =>
    rw [run_zero] at h
    cases h
  | succ fuel ih =>
    rw [run_succ] at h
    rcases c with s | ⟨negated, s⟩ | ⟨op, s⟩ | ⟨op, left, s⟩
    · have hskip := length_skipWhitespace_le s
      have hskip' := length_skipWhitespace_le ((skipWhitespace s).drop 1)
      rw [List.length_drop] at hskip'
      simp only [body] at h
      show r.2.length ≤ s.length
      split_ifs at h
      · cases h
        exact (by omega : (skipWhitespace ((skipWhitespace s).drop 1)).length ≤ s.length)
      · have := ih h
        simp only [text] at this
        omega
      · cases h
        exact hskip
      · have := ih h
        simp only [text] at this
        omega
      · obtain ⟨⟨e, rest⟩, he, heq⟩ := Option.map_eq_some_iff.1 h
        have := length_newEquation_le he
        cases heq
        exact this.trans hskip
    · have hskip := length_skipWhitespace_le (s.drop 1)
      rw [List.length_drop] at hskip
      simp only [body] at h
      show r.2.length ≤ s.length
      split at h
      · cases h
      next term expr hr =>
        have hlen := ih hr
        simp only [text] at hlen
        have hskip' := length_skipWhitespace_le expr
        have hskip'' := length_skipWhitespace_le ((skipWhitespace expr).drop 1)
        rw [List.length_drop] at hskip''
        split at h
        · cases h
          dsimp only
          omega
        · split at h
          · cases h
          all_goals
            cases h
            dsimp only
            omega
    · have hfirst : (op.first s).text = s := by cases op <;> rfl
      simp only [body] at h
      show r.2.length ≤ s.length
      split at h
      · cases h
      next expr hr =>
        have hlen := ih hr
        rw [hfirst] at hlen
        cases h
        exact hlen
      next left expr hr =>
        have hlen := ih hr
        rw [hfirst] at hlen
        exact (ih h).trans hlen
    · have hdrop : (s.drop 2).length ≤ s.length := by simp
      simp only [body] at h
      show r.2.length ≤ s.length
      split at h
      · split at h
        · cases h
        next expr hr =>
          cases h
          exact (ih hr).trans hdrop
        next right expr hr => exact (ih h).trans ((ih hr).trans hdrop)
      · cases h
        exact le_rfl

def cost : Call → ℕ
  | .equation expr => 4 * expr.length + 2
  | .group _ expr => 4 * (expr.length - 1) + 5
  | .junction .and expr => 4 * expr.length + 3
  | .junction .or expr => 4 * expr.length + 4
  | .loop _ _ expr => 4 * expr.length + 1

lemma length_pos_of_peek {c : Char} (h : peek s = c) (hc : c ≠ '\x00') : 0 < s.length := by
  cases s with
  | nil => exact absurd h.symm hc
  | cons d s => exact Nat.succ_pos _

lemma breaks_of_run (hcost : c.cost ≤ fuel) (h : c.run memory fuel = none) :
    ∃ c', Relation.ReflTransGen (Makes memory) c c' ∧ c'.Breaks memory := by
  induction fuel generalizing c with
  | zero =>
    rcases c with s | ⟨negated, s⟩ | ⟨_ | _, s⟩ | ⟨op, left, s⟩ <;> simp [cost] at hcost
  | succ fuel ih =>
    have hgo : ∀ c', Makes memory c c' → c'.cost ≤ fuel → c'.run memory fuel = none →
        ∃ c', Relation.ReflTransGen (Makes memory) c c' ∧ c'.Breaks memory := by
      intro c' hmakes hcost' hnone
      obtain ⟨c'', hreach, hbreaks⟩ := ih hcost' hnone
      exact ⟨c'', .head hmakes hreach, hbreaks⟩
    rw [run_succ] at h
    rcases c with s | ⟨negated, s⟩ | ⟨op, s⟩ | ⟨op, left, s⟩
    · have hskip := length_skipWhitespace_le s
      have hskip' := length_skipWhitespace_le ((skipWhitespace s).drop 1)
      rw [List.length_drop] at hskip'
      simp only [cost] at hcost
      simp only [body] at h
      split_ifs at h with hnot hopen hclose hopen
      · have hpos := length_pos_of_peek (not_not.1 hopen) (by decide)
        exact hgo _ (.negated hnot (not_not.1 hopen)) (by simp only [cost]; omega) h
      · have hpos := length_pos_of_peek hopen (by decide)
        exact hgo _ (.group hopen) (by simp only [cost]; omega) h
      · exact ⟨_, .refl, hnot, hclose, hopen, newEquation_eq_none.1 (Option.map_eq_none_iff.1 h)⟩
    · have hskip := length_skipWhitespace_le (s.drop 1)
      rw [List.length_drop] at hskip
      simp only [cost] at hcost
      simp only [body] at h
      split at h
      next hr => exact hgo _ .inner (by simp only [cost]; omega) hr
      next term expr hr =>
        split at h
        · cases h
        next hclose =>
          split at h
          · exact ⟨_, .refl, expr, ⟨fuel, hr⟩, not_not.1 hclose⟩
          all_goals cases h
    · have hfirst : (op.first s).cost < (Call.junction op s).cost := by
        cases op <;> simp only [Junction.first, cost] <;> omega
      have htext : (op.first s).text = s := by cases op <;> rfl
      simp only [body] at h
      split at h
      next hr => exact hgo _ .first (by omega) hr
      · cases h
      next left expr hr =>
        have hlen := length_le hr
        rw [htext] at hlen
        refine hgo _ (.next ⟨fuel, hr⟩) ?_ h
        cases op <;> simp only [cost] at hcost ⊢ <;> dsimp only at hlen <;> omega
    · simp only [cost] at hcost
      simp only [body] at h
      split at h
      next hop =>
        have hlen : (s.drop 2).length ≤ s.length - 2 := by simp
        have hpos : 0 < (s.drop 1).length := by
          refine length_pos_of_peek (c := op.symbol) ?_ (by cases op <;> decide)
          rw [isOperator, Bool.and_eq_true] at hop
          exact eq_of_beq hop.2
        rw [List.length_drop] at hpos
        split at h
        next hr => exact hgo _ (.right hop) (by simp only [cost]; omega) hr
        · cases h
        next right expr hr =>
          have hle := length_le hr
          simp only [text] at hle
          exact hgo _ (.again hop ⟨fuel, hr⟩) (by simp only [cost]; omega) h
      · cases h

end Call

end Haiku.Query
