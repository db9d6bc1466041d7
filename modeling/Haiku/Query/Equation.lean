import Mathlib.Data.List.Basic
import Mathlib.Algebra.Order.Ring.Int

/-!
# Patterns

`src/add-ons/kernel/file_systems/bfs/Query.cpp`: what a value with wildcards matches. A string is the
list of its bytes up to the null byte, a byte a character below 256, and a pointer into a string what
is left of it.
-/

namespace Haiku.Query

abbrev Text := List Char

/-- The character that a pointer points to -/
def peek (s : Text) : Char := s.headD '\x00'

def skipWhitespace (s : Text) : Text := s.dropWhile fun c => c == ' ' || c == '\t'

/-- The continuation bytes of a character: the code so far, what is left, and whether all are there -/
def continuation : ℕ → ℕ → Text → ℕ × Text × Bool
  | 0, code, s => (code, s, true)
  | n + 1, code, s =>
    if 0x80 ≤ (peek s).toNat then continuation n (code * 64 + (peek s).toNat % 64) (s.drop 1)
    else (code, s, false)

/-- `utf8ToUnicode()`: the code, and what is left -/
def utf8ToUnicode (s : Text) : ℕ × Text :=
  let first := (peek s).toNat
  let length :=
    if first / 16 = 0xc ∨ first / 16 = 0xd then 2 else if first / 16 = 0xe then 3
    else if first / 16 = 0xf then 4 else 1
  let mask := if first / 16 = 0xf then 16 else 32
  if length = 1 then (first, s.drop 1)
  else
    match continuation (length - 1) (first % mask) (s.drop 1) with
    | (code, rest, true) => (code, rest)
    -- an invalid character
    | (_, _, false) => (first, s.drop 1)

def isPatternSymbol (c : Char) : Bool := c == '*' || c == '?' || c == '['

def getFirstPatternSymbol (s : Text) : Option ℕ := s.findIdx? isPatternSymbol

def isPattern (s : Text) : Bool := (getFirstPatternSymbol s).isSome

/-- The loop of `isValidPattern()` over a set: what is left from its end on -/
def validSet : Text → Option Text
  | [] => none
  | ']' :: s => some (']' :: s)
  | '\\' :: [] => none
  | '\\' :: '-' :: '-' :: _ => none
  | '\\' :: _ :: s => validSet s
  | '-' :: '-' :: _ => none
  | _ :: s => validSet s

/-- `isValidPattern()`, which takes at most as many steps as the pattern has characters -/
def isValidPattern : ℕ → Text → Bool
  | 0, _ => true
  | _, [] => true
  | _, '\\' :: [] => false
  | fuel + 1, '\\' :: _ :: s => isValidPattern fuel s
  | fuel + 1, '[' :: s =>
    if s = [] ∨ peek s = ']' then false
    else
      match validSet s with
      | none => false
      | some rest => isValidPattern fuel rest
  | fuel + 1, _ :: s => isValidPattern fuel s

inductive MatchStatus
  | noMatch
  | ok
  | badPattern
  deriving DecidableEq

/-- The loop of `matchString()` over a set: whether it has the character, and what is left of the
pattern, unless the pattern is bad -/
def matchSet (c : ℕ) : ℕ → Text → Option (Bool × Text)
  | 0, _ => none
  | _, [] => none
  | _, ']' :: pattern => some (false, ']' :: pattern)
  | fuel + 1, pattern =>
    let pattern := if peek pattern = '\\' then pattern.drop 1 else pattern
    let (first, pattern) := utf8ToUnicode pattern
    if first = c then some (true, pattern)
    else if peek pattern = '-' ∧ peek (pattern.drop 1) ≠ ']' ∧ pattern.drop 1 ≠ [] then
      let pattern := pattern.drop 1
      if peek pattern = '\\' ∧ pattern.drop 1 = [] then none
      else
        let (last, pattern) :=
          utf8ToUnicode (if peek pattern = '\\' then pattern.drop 1 else pattern)
        if first ≤ c ∧ c ≤ last then some (true, pattern) else matchSet c fuel pattern
    else matchSet c fuel pattern

/-- Compact the wildcards of a pattern: what is left of the pattern and of the string, unless the
string is too short -/
def compactPattern : Text → Text → Option (Text × Text)
  | '?' :: pattern, string =>
    if string.drop 1 = [] then none else compactPattern pattern (string.drop 1)
  | '*' :: pattern, string => compactPattern pattern string
  | pattern, string => some (pattern, string)

/-- `matchString()`, with a bound for its steps -/
def matchString : ℕ → Text → Text → MatchStatus
  | 0, _, _ => .noMatch
  | _, [], string => if string = [] then .ok else .noMatch
  | _, pattern, [] => if pattern.all (· == '*') then .ok else .noMatch
  | fuel + 1, '?' :: pattern, string => matchString fuel pattern (utf8ToUnicode string).2
  | fuel + 1, '*' :: pattern, string =>
    match compactPattern pattern string with
    | none => .noMatch
    | some ([], _) => .ok
    | some (pattern, string) =>
      -- try the rest of the pattern at every place of the string
      string.tails.foldr (fun rest next =>
        if rest = [] then .noMatch
        else if peek pattern = peek rest ∨ peek pattern = '[' ∨ peek pattern = '\\' then
          match matchString fuel pattern rest with
          | .noMatch => next
          | status => status
        else next) .noMatch
  | fuel + 1, '[' :: pattern, string =>
    let invert := peek pattern = '^' ∨ peek pattern = '!'
    let pattern := if invert then pattern.drop 1 else pattern
    if pattern = [] ∨ peek pattern = ']' then .badPattern
    else
      let (c, string) := utf8ToUnicode string
      match matchSet c (pattern.length + 1) pattern with
      | none => .badPattern
      | some (found, pattern) =>
        if found = decide invert then .noMatch
        else
          match pattern.dropWhile (· != ']') with
          | [] => .badPattern
          | _ :: pattern => matchString fuel pattern string
  | _, '\\' :: [], _ => .badPattern
  -- an escape is compared itself, `pattern[-1]` being the backslash
  | fuel + 1, c :: pattern, d :: string =>
    if c ≠ d then .noMatch else matchString fuel pattern string

/-!
## Equations

`src/add-ons/kernel/file_systems/bfs/Query.cpp`, and `compareKeys()` of `BPlusTree.cpp`: an equation
compares an attribute with a value. The value is converted to the type of the attribute when it is
compared for the first time. Attributes hold strings or integers, and can be read.
-/

/-- The operators of equations -/
inductive Op
  | equal
  | unequal
  | greaterThan
  | lessThan
  | greaterThanOrEqual
  | lessThanOrEqual
  deriving DecidableEq

inductive TypeCode
  | string
  | mimeString
  | int32
  | uint32
  | int64
  | uint64
  deriving DecidableEq

def inodeFileNameLength : ℕ := 256

def inodeTimeShift : ℕ := 16

/-- A key: what the memory holds from where a string starts, with the length of the string, or an
integer -/
inductive Key
  | string (memory : Text) (size : ℕ)
  | number (n : ℤ)

/-! ## Keys -/

def memcmp : ℕ → Text → Text → ℤ
  | 0, _, _ => 0
  | n + 1, key1, key2 =>
    if peek key1 = peek key2 then memcmp n (key1.drop 1) (key2.drop 1)
    else if (peek key1).toNat < (peek key2).toNat then -1 else 1

/-- `compareKeys()` for two keys that are not `NULL` -/
def compareKeys : TypeCode → Key → Key → ℤ
  | .string, .string key1 keyLength1, .string key2 keyLength2 =>
    let result := memcmp (min keyLength1 keyLength2) key1 key2
    if result = 0 then
      -- ignore trailing null bytes
      if keyLength1 = keyLength2 + 1 ∧ key1[keyLength2]? = some '\x00' ∨
          keyLength2 = keyLength1 + 1 ∧ key2[keyLength1]? = some '\x00' then 0
      else keyLength1 - keyLength2
    else result
  -- the difference of two `int32`
  | .int32, .number key1, .number key2 => (key1 - key2).bmod (2 ^ 32)
  | .uint32, .number key1, .number key2 => if key1 = key2 then 0 else if key1 > key2 then 1 else -1
  | .int64, .number key1, .number key2 => if key1 = key2 then 0 else if key1 > key2 then 1 else -1
  | .uint64, .number key1, .number key2 => if key1 = key2 then 0 else if key1 > key2 then 1 else -1
  | _, _, _ => -1

/-! ## Numbers -/

def digit (base : ℕ) (c : Char) : Option ℕ :=
  let value :=
    if '0' ≤ c ∧ c ≤ '9' then c.toNat - '0'.toNat
    else if 'a' ≤ c ∧ c ≤ 'z' then c.toNat - 'a'.toNat + 10
    else if 'A' ≤ c ∧ c ≤ 'Z' then c.toNat - 'A'.toNat + 10
    else base
  if value < base then some value else none

/-- The number that the digits at the start of a string make -/
def digits (base : ℕ) : ℕ → Text → ℕ
  | n, [] => n
  | n, c :: s =>
    match digit base c with
    | none => n
    | some value => digits base (n * base + value) s

/-- A number without sign, in the base that it starts with -/
def unsignedNumber (s : Text) : ℕ :=
  if peek s = '0' then
    if (peek (s.drop 1) = 'x' ∨ peek (s.drop 1) = 'X') ∧ (digit 16 (peek (s.drop 2))).isSome then
      digits 16 0 (s.drop 2)
    else digits 8 0 s
  else digits 10 0 s

def signedNumber (s : Text) : Bool × ℕ :=
  let s := s.dropWhile fun c => c == ' ' || ('\t' ≤ c && c ≤ '\r')
  if peek s = '-' then (true, unsignedNumber (s.drop 1))
  else if peek s = '+' then (false, unsignedNumber (s.drop 1))
  else (false, unsignedNumber s)

/-- `strtol()` with `w` bits -/
def strtol (w : ℕ) (s : Text) : ℤ :=
  let number := signedNumber s
  max (-2 ^ (w - 1)) (min (2 ^ (w - 1) - 1) (if number.1 then -number.2 else number.2))

/-- `strtoul()` with `w` bits -/
def strtoul (w : ℕ) (s : Text) : ℤ :=
  let number := signedNumber s
  if number.2 ≥ 2 ^ w then 2 ^ w - 1 else (if number.1 then -(number.2 : ℤ) else number.2) % 2 ^ w

/-! ## Inodes -/

/-- What an attribute holds: a string that may end with a null byte, with what is in the memory behind
it, or an integer -/
inductive Data
  | string (data behind : Text)
  | number (n : ℤ)

structure Attribute where
  type : TypeCode
  /-- it is in the small data section of the inode -/
  small : Bool
  data : Data

structure Inode where
  name : Text
  size : ℤ
  /-- the time in seconds, shifted by `INODE_TIME_SHIFT` bits and made unique -/
  lastModified : ℤ
  attributes : Text → Option Attribute

/-- The type and the value of an attribute as `Equation::Match()` gets it -/
def Inode.read (inode : Inode) (attributeName : Text) : Option (TypeCode × Key) :=
  if attributeName = "name".toList then
    some (.string, .string (inode.name ++ ['\x00']) inode.name.length)
  else if attributeName = "size".toList then some (.int64, .number inode.size)
  else if attributeName = "last_modified".toList then some (.int64, .number inode.lastModified)
  else
    (inode.attributes attributeName).map fun a =>
      match a.data with
      | .number n => (a.type, .number n)
      | .string data behind =>
        if a.small then (a.type, .string (data ++ behind) data.length)
        else (a.type, .string (data.take inodeFileNameLength ++ behind)
          (min data.length inodeFileNameLength))

/-! ## Equations -/

structure Equation where
  fOp : Op
  fAttribute : Text
  fString : Text
  /-- `fValue` -/
  value : Key
  /-- `fType`, which is 0 at first -/
  fType : Option TypeCode
  fIsPattern : Bool
  fIsSpecialTime : Bool
  fScore : ℤ
  fHasIndex : Bool

namespace Equation

def convertValue (e : Equation) (type : TypeCode) : Equation :=
  if some type = e.fType then e
  else
    match type with
    | .string | .mimeString =>
      let string := e.fString.take (inodeFileNameLength - 1)
      { e with value := .string string string.length, fType := some .string }
    | .int32 =>
      { e with value := .number (strtol 32 e.fString), fType := some .int32, fIsPattern := false }
    | .uint32 =>
      { e with value := .number (strtoul 32 e.fString), fType := some .uint32, fIsPattern := false }
    | .int64 =>
      { e with value := .number (strtol 64 e.fString), fType := some .int64, fIsPattern := false }
    | .uint64 =>
      { e with value := .number (strtoul 64 e.fString), fType := some .uint64, fIsPattern := false }

def cString (memory : Text) : Text := memory.takeWhile (· != '\x00')

/-- The outcome of the comparison in `Equation::CompareTo()` -/
def compare (e : Equation) (key : Key) : ℤ :=
  if e.fIsPattern then
    match e.value, key with
    | .string pattern _, .string memory _ =>
      -- every step of `matchString()` goes on in the pattern
      if matchString (pattern.length + 1) pattern (cString memory) = .ok then 0 else 1
    | _, _ => 1
  else if e.fIsSpecialTime then
    match key with
    | .number n => compareKeys (e.fType.getD .string) (.number (n / 2 ^ inodeTimeShift)) e.value
    | key => compareKeys (e.fType.getD .string) key e.value
  else compareKeys (e.fType.getD .string) key e.value

def compareTo (e : Equation) (key : Key) : Bool :=
  match e.fOp with
  | .equal => e.compare key = 0
  | .unequal => e.compare key ≠ 0
  | .lessThan => e.compare key < 0
  | .lessThanOrEqual => e.compare key ≤ 0
  | .greaterThan => e.compare key > 0
  | .greaterThanOrEqual => e.compare key ≥ 0

end Equation

/-- `complementOp` -/
def Op.complement : Op → Op
  | .equal => .unequal
  | .unequal => .equal
  | .greaterThan => .lessThanOrEqual
  | .lessThan => .greaterThanOrEqual
  | .greaterThanOrEqual => .lessThan
  | .lessThanOrEqual => .greaterThan

namespace Equation

def complement (e : Equation) : Equation := { e with fOp := e.fOp.complement }

def matchEmptyString (e : Equation) : Bool × Equation :=
  if e.fType ≠ none ∧ e.fType ≠ some .string then (false, e)
  else
    let e := e.convertValue .string
    let size := match e.value with
      | .string _ size => size
      | .number _ => 0
    (e.compareTo (.string ['\x00'] size), e)

/-- `Equation::Match()` of an inode: whether it is `MATCH_OK`, and the equation with its value
converted -/
def matchInode (e : Equation) (inode : Inode) : Bool × Equation :=
  match inode.read e.fAttribute with
  | none => e.matchEmptyString
  | some (type, key) => ((e.convertValue type).compareTo key, e.convertValue type)

end Equation

end Haiku.Query
