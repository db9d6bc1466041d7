import Haiku.Query.Equation
import Mathlib.Data.Char
import Mathlib.Data.List.Lex
import Mathlib.Data.Nat.Digits.Defs

/-!
# Expressions

`src/add-ons/kernel/file_systems/bfs/Query.cpp`: a term is an equation, or two terms that are combined
by `&&` or `||`. The parser leaves `!` to the complement of the term. A parse that has no result uses a
`NULL` pointer, or reads on behind the end of the text; memory can be allocated.
-/

namespace Haiku.Query

/-! ## Equations -/

/-- What is up to a quote, and what is left behind it -/
def quoted (quote : Char) : Text → Option (Option (Text × Text))
  | [] => some none
  | '\\' :: [] => none
  | '\\' :: c :: s => (quoted quote s).map fun r => r.map fun (word, rest) => ('\\' :: c :: word, rest)
  | c :: s =>
    if c = quote then some (some ([], s))
    else (quoted quote s).map fun r => r.map fun (word, rest) => (c :: word, rest)

def parseQuotedString (start : Text) : Option (Option (Text × Text)) :=
  quoted (peek start) (start.drop 1)

/-- `skipWhitespaceReverse()`: a word without the whitespace at its end -/
def trimEnd : Text → Text
  | [] => []
  | c :: s => c :: (s.reverse.dropWhile fun c => c == ' ' || c == '\t').reverse

def isQuote (c : Char) : Bool := c == '"' || c == '\''

def copyString (s : Text) :
    Option Text := if s.length + 1 > inodeFileNameLength then none else some s

def endsAttribute (c : Char) : Bool :=
  c == '=' || c == '<' || c == '>' || c == '!' || c == '&' || c == '|'

def endsValue (c : Char) : Bool := c == '&' || c == '|' || c == ')'

/-- The operator, and what is left from the character behind its first one on -/
def parseOp : Text → Option (Op × Text)
  | '=' :: s => some (.equal, s)
  | '>' :: s => some (if peek s = '=' then .greaterThanOrEqual else .greaterThan, s)
  | '<' :: s => some (if peek s = '=' then .lessThanOrEqual else .lessThan, s)
  | '!' :: '=' :: s => some (.unequal, '=' :: s)
  | _ => none

/-- A word in quotes, or up to a character that ends it, and what is left -/
def parseWord (ends : Char → Bool) (start : Text) : Option (Option (Text × Text)) :=
  if isQuote (peek start) then
    (parseQuotedString start).map fun r => r.map fun (word, rest) => (word, skipWhitespace rest)
  else some (some (trimEnd (start.takeWhile (!ends ·)), start.dropWhile (!ends ·)))

/-- `Equation::Equation()`: the equation if it passes `InitCheck()`, and what is left of the text. What
the score is at first is up to the memory. -/
def newEquation (memory : ℕ → ℤ) (expr : Text) : Option (Option Equation × Text) :=
  match parseWord endsAttribute expr with
  | none => none
  | some none => some (none, expr)
  | some (some (word, string)) =>
    if isQuote (peek expr) ∧ ¬ (peek string = '=' ∨ peek string = '<' ∨ peek string = '>' ∨
        peek string = '!') then some (none, string)
    -- the attribute string is empty
    else if word = [] then some (none, expr)
    else
      match parseOp string with
      | none => some (none, if peek string = '!' then expr else string)
      | some (op, rest) =>
        let start := skipWhitespace (if peek rest = '=' then rest.drop 1 else rest)
        match copyString word with
        | none => some (none, expr)
        | some fAttribute =>
          match parseWord endsValue start with
          | none => none
          | some none => some (none, expr)
          | some (some (value, string)) =>
            match copyString value with
            | none => some (none, expr)
            | some fString =>
              let fIsPattern := (op = .equal || op = .unequal) && isPattern fString
              -- only valid patterns are allowed
              if fIsPattern ∧ ¬ isValidPattern fString.length fString then some (none, string)
              else
                some (some {
                  fOp            := op
                  fAttribute     := fAttribute
                  fString        := fString
                  value          := .string [] 0
                  fType          := none
                  fIsPattern     := fIsPattern
                  fIsSpecialTime := fAttribute = "last_modified".toList
                  fScore         := memory expr.length
                  fHasIndex      := false }, string)

/-! ## Terms -/

/-- `OP_AND`, or `OP_OR` -/
inductive Junction
  | and
  | or

inductive Term
  | equation (e : Equation)
  | operator (fOp : Junction) (left right : Term)

namespace Term

def complement : Term → Term
  | .equation e => .equation e.complement
  | .operator .and left right => .operator .or left.complement right.complement
  | .operator .or left right => .operator .and left.complement right.complement

def score : Term → ℤ
  | .equation e => e.fScore
  | .operator .and left right => if right.score > left.score then right.score else left.score
  | .operator .or left right => if right.score < left.score then right.score else left.score

/-- `Match()` of an inode: whether it is `MATCH_OK`, and the term with values converted -/
def matchInode (inode : Inode) : Term → Bool × Term
  | .equation e =>
    let r := e.matchInode inode
    (r.1, .equation r.2)
  | .operator .and left right =>
    let l := left.matchInode inode
    if l.1 then
      let r := right.matchInode inode
      (r.1, .operator .and l.2 r.2)
    else (false, .operator .and l.2 right)
  | .operator .or left right =>
    let l := left.matchInode inode
    let r := right.matchInode inode
    -- the term with the lower score comes first
    if right.score > left.score then
      if l.1 then (true, .operator .or l.2 right) else (r.1, .operator .or l.2 r.2)
    else if r.1 then (true, .operator .or left r.2) else (l.1, .operator .or l.2 r.2)

end Term

/-! ## The parser -/

/-- `Expression::IsOperator()`, without the move -/
def isOperator (op : Char) (expr : Text) : Bool := peek expr == op && peek (expr.drop 1) == op

mutual

def parseEquation (memory : ℕ → ℤ) : ℕ → Text → Option (Option Term × Text)
  | 0, _ => none
  | fuel + 1, expr =>
    let expr := skipWhitespace expr
    if peek expr = '!' then
      let expr := skipWhitespace (expr.drop 1)
      if peek expr ≠ '(' then some (none, expr) else parseGroup memory fuel true expr
    else if peek expr = ')' then some (none, expr)
    else if peek expr = '(' then parseGroup memory fuel false expr
    else (newEquation memory expr).map fun (e, expr) => (e.map Term.equation, expr)

/-- `Expression::ParseEquation()` from a bracket on, which may be negated -/
def parseGroup (memory : ℕ → ℤ) : ℕ → Bool → Text → Option (Option Term × Text)
  | 0, _, _ => none
  | fuel + 1, negated, expr =>
    match parseOr memory fuel (skipWhitespace (expr.drop 1)) with
    | none => none
    | some (term, expr) =>
      let expr := skipWhitespace expr
      if peek expr ≠ ')' then some (none, expr)
      else
        let rest := skipWhitespace (expr.drop 1)
        match term, negated with
        -- the complement of `NULL`
        | none, true => none
        | none, false => some (none, rest)
        | some term, true => some (some term.complement, rest)
        | some term, false => some (some term, rest)

def parseAnd (memory : ℕ → ℤ) : ℕ → Text → Option (Option Term × Text)
  | 0, _ => none
  | fuel + 1, expr =>
    match parseEquation memory fuel expr with
    | none => none
    | some (none, expr) => some (none, expr)
    | some (some left, expr) => parseAndLoop memory fuel left expr

/-- The loop of `Expression::ParseAnd()` -/
def parseAndLoop (memory : ℕ → ℤ) : ℕ → Term → Text → Option (Option Term × Text)
  | 0, _, _ => none
  | fuel + 1, left, expr =>
    if isOperator '&' expr then
      match parseAnd memory fuel (expr.drop 2) with
      | none => none
      | some (none, expr) => some (none, expr)
      | some (some right, expr) => parseAndLoop memory fuel (.operator .and left right) expr
    else some (some left, expr)

def parseOr (memory : ℕ → ℤ) : ℕ → Text → Option (Option Term × Text)
  | 0, _ => none
  | fuel + 1, expr =>
    match parseAnd memory fuel expr with
    | none => none
    | some (none, expr) => some (none, expr)
    | some (some left, expr) => parseOrLoop memory fuel left expr

/-- The loop of `Expression::ParseOr()` -/
def parseOrLoop (memory : ℕ → ℤ) : ℕ → Term → Text → Option (Option Term × Text)
  | 0, _, _ => none
  | fuel + 1, left, expr =>
    if isOperator '|' expr then
      match parseAnd memory fuel (expr.drop 2) with
      | none => none
      | some (none, expr) => some (none, expr)
      | some (some right, expr) => parseOrLoop memory fuel (.operator .or left right) expr
    else some (some left, expr)

end

/-- `Expression::Expression()`: the term, and where the parser stopped -/
def expression (memory : ℕ → ℤ) (expr : Text) : Option (Option Term × Text) :=
  parseOr memory (4 * (expr.length + 1)) expr

/-!
## The query language

What a query says: boolean expressions over equations, what they mean for an inode, and the texts that
write them.
-/

/-! ## Meaning -/

inductive Value
  | string (s : Text)
  | number (n : ℤ)

def Op.Holds {α : Type} [LinearOrder α] : Op → α → α → Prop
  | .equal, a, b => a = b
  | .unequal, a, b => a ≠ b
  | .greaterThan, a, b => a > b
  | .lessThan, a, b => a < b
  | .greaterThanOrEqual, a, b => a ≥ b
  | .lessThanOrEqual, a, b => a ≤ b

structure Atom where
  attributeName : Text
  op : Op
  value : Value

/-- The value is a pattern, which the strings either match or not -/
def Atom.HasPattern (a : Atom) : Prop :=
  (a.op = .equal ∨ a.op = .unequal) ∧
    match a.value with
    | .string v => isPattern v = true
    | .number _ => False

instance (a : Atom) : Decidable a.HasPattern :=
  match h : a.value with
  | .string v => decidable_of_iff ((a.op = .equal ∨ a.op = .unequal) ∧ isPattern v = true)
      (by unfold Atom.HasPattern; rw [h])
  | .number _ => .isFalse (by unfold Atom.HasPattern; rw [h]; exact fun h => h.2)

/-- What an attribute says. The time in `last_modified` is one in seconds. -/
def Inode.value (inode : Inode) (attributeName : Text) : Option Value :=
  if attributeName = "name".toList then some (.string inode.name)
  else if attributeName = "size".toList then some (.number inode.size)
  else if attributeName = "last_modified".toList then
    some (.number (inode.lastModified / 2 ^ inodeTimeShift))
  else
    (inode.attributes attributeName).map fun a =>
      match a.data with
      | .string data _ => .string (Equation.cString data)
      | .number n => .number n

/-- Strings are in the order of their bytes, and a pattern stands for the strings that match it. -/
def Atom.Holds (a : Atom) (inode : Inode) : Prop :=
  match inode.value a.attributeName, a.value with
  | some (.string s), .string v =>
    if a.HasPattern then matchString (v.length + 1) v s = .ok ↔ a.op = .equal else a.op.Holds s v
  | some (.number m), .number n => a.op.Holds m n
  | _, _ => False

inductive Expr
  | equation (a : Atom)
  | and (e e' : Expr)
  | or (e e' : Expr)
  | not (e : Expr)

namespace Expr

def Holds (inode : Inode) : Expr → Prop
  | .equation a => a.Holds inode
  | .and e e' => e.Holds inode ∧ e'.Holds inode
  | .or e e' => e.Holds inode ∨ e'.Holds inode
  | .not e => ¬ e.Holds inode

def atoms : Expr → List Atom
  | .equation a => [a]
  | .and e e' => e.atoms ++ e'.atoms
  | .or e e' => e.atoms ++ e'.atoms
  | .not e => e.atoms

end Expr

/-! ## Inodes with the attributes -/

def TypeCode.Fits : TypeCode → ℤ → Prop
  | .int32, n => -2 ^ 31 ≤ n ∧ n < 2 ^ 31
  | .uint32, n => 0 ≤ n ∧ n < 2 ^ 32
  | .int64, n => -2 ^ 63 ≤ n ∧ n < 2 ^ 63
  | .uint64, n => 0 ≤ n ∧ n < 2 ^ 64
  | _, _ => False

/-- What an attribute holds is of its type. A string may end with a null byte. -/
def Attribute.Valid (a : Attribute) : Prop :=
  match a.data with
  | .string data _ => (a.type = .string ∨ a.type = .mimeString) ∧ '\x00' ∉ data.dropLast
  | .number n => a.type.Fits n

structure Inode.Valid (inode : Inode) : Prop where
  name : '\x00' ∉ inode.name
  size : TypeCode.int64.Fits inode.size
  lastModified : TypeCode.int64.Fits inode.lastModified
  attributes : ∀ name, ∀ a ∈ inode.attributes name, a.Valid

/-- The inode has the attribute, with the type of the value. -/
def Atom.Typed (a : Atom) (inode : Inode) : Prop :=
  match inode.read a.attributeName, a.value with
  | some (_, .string _ _), .string _ => True
  | some (type, .number _), .number n => type.Fits n
  | _, _ => False

/-- Neither is there an overflow in the comparison of two `int32`, nor does a pattern read on behind
the data of a string that has no null byte, or of which only the start is read. -/
def Atom.Safe (a : Atom) (inode : Inode) : Prop :=
  match inode.read a.attributeName, a.value with
  | some (type, .number m), .number n =>
    type = .int32 → a.op = .equal ∨ a.op = .unequal ∨ TypeCode.int32.Fits (m - n)
  | some (_, .string memory _), .string _ =>
    a.HasPattern → inode.value a.attributeName = some (.string (Equation.cString memory))
  | _, _ => True

/-! ## Texts -/

def Blank (s : Text) : Prop := ∀ c ∈ s, c = ' ' ∨ c = '\t'

/-- A quote can stand around the word: it comes there behind a backslash only. -/
def Quotable (quote : Char) : Text → Prop
  | [] => True
  | ['\\'] => False
  | '\\' :: _ :: w => Quotable quote w
  | c :: w => c ≠ quote ∧ Quotable quote w

/-- A word without quotes: none of its characters ends it, and it neither starts with a quote nor starts
or ends with whitespace. -/
structure Bare (ends : Char → Bool) (w : Text) : Prop where
  ne : w ≠ []
  goesOn : ∀ c ∈ w, ends c = false
  notQuote : ∀ c ∈ w.head?, isQuote c = false
  notBlank : ∀ c ∈ w.head?, c ≠ ' ' ∧ c ≠ '\t'
  last : ∀ c ∈ w.getLast?, c ≠ ' ' ∧ c ≠ '\t'

inductive Word (ends : Char → Bool) : Text → Text → Prop
  | quoted {q : Char} {w : Text} (hq : isQuote q = true) (hw : Quotable q w) :
    Word ends w (q :: (w ++ [q]))
  | bare {w : Text} (hw : Bare ends w) : Word ends w w

/-- The literals of C without sign -/
inductive Numeral : ℕ → Text → Prop
  | decimal {s : Text} {ds : List ℕ} (hs : s.map (digit 10) = ds.map some) (ne : s ≠ [])
    (first : s.head? ≠ some '0') : Numeral (Nat.ofDigits 10 ds.reverse) s
  | octal {s : Text} {ds : List ℕ} (hs : s.map (digit 8) = ds.map some) :
    Numeral (Nat.ofDigits 8 ds.reverse) ('0' :: s)
  | hexadecimal {x : Char} {s : Text} {ds : List ℕ} (hx : x = 'x' ∨ x = 'X')
    (hs : s.map (digit 16) = ds.map some) (ne : s ≠ []) :
    Numeral (Nat.ofDigits 16 ds.reverse) ('0' :: x :: s)

/-- The text of a value -/
inductive Value.Text : Value → Query.Text → Prop
  | string {s : Query.Text} : Value.Text (.string s) s
  | positive {n : ℕ} {s : Query.Text} (h : Numeral n s) : Value.Text (.number n) s
  | negative {n : ℕ} {s : Query.Text} (h : Numeral n s) : Value.Text (.number (-n)) ('-' :: s)

def Op.symbol : Op → Text
  | .equal => ['=', '=']
  | .unequal => ['!', '=']
  | .greaterThan => ['>']
  | .lessThan => ['<']
  | .greaterThanOrEqual => ['>', '=']
  | .lessThanOrEqual => ['<', '=']

/-- The texts of an equation. The words are null-terminated in 256 bytes, and a pattern is a valid
one. -/
structure Spelled (a : Atom) (name text word b b' : Text) : Prop where
  hname : Word endsAttribute a.attributeName name
  notBracket : peek name ≠ '(' ∧ peek name ≠ ')'
  notEmpty : a.attributeName ≠ []
  hvalue : a.value.Text text
  hword : Word endsValue text word
  before : Blank b
  behind : Blank b'
  notEqual : a.op = .lessThan ∨ a.op = .greaterThan → peek (b' ++ word) ≠ '='
  short : a.attributeName.length < 256 ∧ text.length < 256
  noNull : '\x00' ∉ text
  pattern : a.HasPattern → isValidPattern text.length text = true

inductive Level
  | or
  | and
  | factor

/-- The texts of an expression -/
inductive Written : Level → Expr → Text → Prop
  | equation {a : Atom} {name text word b b' s s' : Text} (h : Spelled a name text word b b')
    (hs : Blank s) (hs' : Blank s') :
    Written .factor (.equation a) (s ++ (name ++ b ++ a.op.symbol ++ b' ++ word) ++ s')
  | group {e : Expr} {t s s' : Text} (h : Written .or e t) (hs : Blank s) (hs' : Blank s') :
    Written .factor e (s ++ '(' :: (t ++ ')' :: s'))
  | not {e : Expr} {t s b s' : Text} (h : Written .or e t) (hs : Blank s) (hb : Blank b)
    (hs' : Blank s') : Written .factor (.not e) (s ++ '!' :: (b ++ '(' :: (t ++ ')' :: s')))
  | toAnd {e : Expr} {t : Text} (h : Written .factor e t) : Written .and e t
  | and {e e' : Expr} {t t' : Text} (h : Written .and e t) (h' : Written .and e' t') :
    Written .and (.and e e') (t ++ '&' :: '&' :: t')
  | toOr {e : Expr} {t : Text} (h : Written .and e t) : Written .or e t
  | or {e e' : Expr} {t t' : Text} (h : Written .or e t) (h' : Written .or e' t') :
    Written .or (.or e e') (t ++ '|' :: '|' :: t')

end Haiku.Query
