import Mathlib.Algebra.Ring.Nat
import Mathlib.Data.Char
import Mathlib.Data.List.Infix
import Mathlib.Data.List.Lex
import Mathlib.Data.List.DropRight

/-!
# The string operations of the standard library

A string is the list of its characters.  The operations below are the ones
the tool calls, under the library's names and with its documented behaviour:
white space is the Unicode property, a split keeps its empty pieces, and a
line loses the carriage return only in front of a line feed.
-/

namespace CalxMill.Rust

abbrev Str := List Char

/-- A string literal of the source. -/
def lit (s : String) : Str := s.toList

instance : Coe String Str := ⟨lit⟩

instance lawfulBEqStr : LawfulBEq Str := inferInstance

/-- `char::is_whitespace`: the Unicode property `White_Space`. -/
def isWhitespace (c : Char) : Bool :=
  let n := c.toNat
  (9 ≤ n && n ≤ 13) || n = 0x20 || n = 0x85 || n = 0xa0 || n = 0x1680 ||
    (0x2000 ≤ n && n ≤ 0x200a) || n = 0x2028 || n = 0x2029 || n = 0x202f ||
    n = 0x205f || n = 0x3000

/-- `str::strip_prefix`. -/
theorem dropPrefix?_eq_some {p s t : Str} : s.dropPrefix? p = some t ↔ s = p ++ t := by
  simp [List.dropPrefix?_eq_some_iff]

def trimStart (s : Str) : Str := s.dropWhile isWhitespace

def trim (s : Str) : Str := (trimStart s).rdropWhile isWhitespace

/-- `str::split_once`: cut around the first occurrence of `pat`. -/
def splitOnce (pat : Str) : Str → Option (Str × Str)
  | [] => if pat = [] then some ([], []) else none
  | c :: cs =>
      match (c :: cs).dropPrefix? pat with
      | some rest => some ([], rest)
      | none => (splitOnce pat cs).map fun p ↦ (c :: p.1, p.2)

theorem splitOnce_singleton_eq_none {c : Char} {s : Str} :
    splitOnce [c] s = none ↔ c ∉ s := by
  induction s with
  | nil => simp [splitOnce]
  | cons x s ih =>
      by_cases hx : x = c
      · simp [splitOnce, List.dropPrefix?, hx]
      · simp [splitOnce, List.dropPrefix?, hx, ih, Ne.symm hx]

/-- `str::lines`: every piece in front of a line feed is a line, and so is a
last piece that is not empty. -/
def lines (s : Str) : List Str :=
  let parts := s.splitOn '\n'
  let stripCr (l : Str) := if l.getLast? = some '\r' then l.dropLast else l
  let last := parts.getLastD []
  parts.dropLast.map stripCr ++ if last = [] then [] else [last]

def splitWhitespace (s : Str) : List Str :=
  (s.splitOnP isWhitespace).filter (· ≠ [])

def toAsciiLowercase (s : Str) : Str := s.map Char.toLower

/-- `str::contains` on a string pattern. -/
def contains (s pat : Str) : Bool := decide (pat <:+: s)

def join (sep : Str) (parts : List Str) : Str := sep.intercalate parts

/-- One character of the `{:?}` form of a string. -/
def escapeDebug (c : Char) : Str :=
  if c = '"' then "\\\"" else
  if c = '\\' then "\\\\" else
  if c = '\n' then "\\n" else
  if c = '\r' then "\\r" else
  if c = '\t' then "\\t" else
  if c = '\x00' then "\\0" else
  if c.toNat < 0x20 ∨ (0x7f ≤ c.toNat ∧ c.toNat < 0xa0) then
    "\\u\x7b" ++ Nat.toDigits 16 c.toNat ++ "\x7d"
  else [c]

/-- The `{:?}` form of a string. -/
def debug (s : Str) : Str := '"' :: s.flatMap escapeDebug ++ ['"']

/-- The `{:?}` form of a vector of strings. -/
def debugList (l : List Str) : Str := '[' :: join ", " (l.map debug) ++ [']']

/-- The `{}` form of an unsigned integer. -/
def natStr (n : ℕ) : Str := Nat.toDigits 10 n

/-- `str::parse::<u64>`. -/
def parseU64 (s : Str) : Option ℕ :=
  let digits := if s.head? = some '+' then s.tail else s
  let n := Nat.ofDigitChars 10 digits 0
  if digits ≠ [] ∧ digits.all Char.isDigit ∧ n < 2 ^ 64 then some n else none

/-- `str::parse::<u32>`. -/
def parseU32 (s : Str) : Option UInt32 :=
  let digits := if s.head? = some '+' then s.tail else s
  let n := Nat.ofDigitChars 10 digits 0
  if digits ≠ [] ∧ digits.all Char.isDigit ∧ n < 2 ^ 32 then some (.ofNat n) else none

/-- `str::trim_start_matches` on a string pattern. -/
def trimStartMatches (pat s : Str) : Str :=
  (fun t ↦ (t.dropPrefix? pat).getD t)^[s.length] s

/-- `str::split` at every `", "`. -/
def splitCommaSpace : Str → List Str
  | [] => [[]]
  | ',' :: ' ' :: cs => [] :: splitCommaSpace cs
  | c :: cs => (splitCommaSpace cs).modifyHead (c :: ·)

end CalxMill.Rust
