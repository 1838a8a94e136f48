import CalxMill.Lib.Exec
import CalxMill.Rust.Str

/-!
# Kernel-name patterns

The matcher works on the UTF-8 bytes of the name: literals, `.` and `\d`, each
taken once, starred or plussed, and found anywhere in the text.
-/

namespace CalxMill.Nvidia

open Lib Rust

inductive Atom where
  | lit (b : UInt8)
  | any
  | digit
  deriving DecidableEq

inductive Quant where
  | one
  | star
  | plus
  deriving DecidableEq

structure Pattern where
  atoms : List (Atom × Quant)
  deriving DecidableEq

def byte (c : Char) : UInt8 := c.toNat.toUInt8

/-- `str::as_bytes` -/
def asBytes (s : Str) : List UInt8 := s.flatMap String.utf8EncodeChar

def atomOk (atom : Atom) (b : UInt8) : Bool :=
  match atom with
  | .lit l => b = l
  | .any => b ≠ byte '\n'
  | .digit => byte '0' ≤ b && b ≤ byte '9'

/-- The texts left after taking as many bytes as the atom allows, then one
byte fewer at a time. -/
def backOffs (atom : Atom) : List UInt8 → List (List UInt8)
  | [] => [[]]
  | b :: text => if atomOk atom b then backOffs atom text ++ [b :: text] else [b :: text]

def matchHere : List (Atom × Quant) → List UInt8 → Bool
  | [], _ => true
  | (atom, .one) :: rest, text =>
      match text with
      | [] => false
      | b :: text => atomOk atom b && matchHere rest text
  | (atom, .plus) :: rest, text =>
      match text with
      | [] => false
      | b :: text => atomOk atom b && (backOffs atom text).any fun t ↦ matchHere rest t
  | (atom, .star) :: rest, text => (backOffs atom text).any fun t ↦ matchHere rest t

namespace Pattern

/-- What the parser holds back: nothing, a backslash, or an atom whose
quantifier is not read yet. -/
inductive Pending where
  | start
  | escape
  | atom (a : Atom)

/-- A byte that opens an atom. -/
def opens (b : UInt8) : Pending :=
  if b = byte '\\' then .escape else .atom (if b = byte '.' then .any else .lit b)

def escaped (b : UInt8) : Atom := if b = byte 'd' then .digit else .lit b

def parse : Pending → List UInt8 → List (Atom × Quant)
  | .start, [] => []
  | .start, b :: bytes => parse (opens b) bytes
  -- a last backslash stands for itself
  | .escape, [] => [(.lit (byte '\\'), .one)]
  | .escape, b :: bytes => parse (.atom (escaped b)) bytes
  | .atom a, [] => [(a, .one)]
  | .atom a, b :: bytes =>
      if b = byte '*' then (a, .star) :: parse .start bytes else
      if b = byte '+' then (a, .plus) :: parse .start bytes else
      (a, .one) :: parse (opens b) bytes

def new (pat : Str) : Pattern := ⟨parse .start (asBytes pat)⟩

def isMatch (p : Pattern) (text : Str) : Bool := (asBytes text).tails.any (matchHere p.atoms)

/-- The regular-expression constructs that the matcher does not have. -/
def constructs : List UInt8 := (lit "[](){}|?^$").map byte

/-- The first of them that is not escaped; the flag says that the next byte is. -/
def unsupported : Bool → List UInt8 → Option UInt8
  | _, [] => none
  | true, _ :: bytes => unsupported false bytes
  | false, b :: bytes =>
      if b = byte '\\' then unsupported true bytes else
      if b ∈ constructs then some b else unsupported false bytes

/-- `new` for a pattern that an operator supplies. -/
def tryNew (pat : Str) : Exec Str Pattern :=
  match unsupported false (asBytes pat) with
  | some c => Exec.err ("pattern " ++ debug pat ++ ": unsupported regex construct '" ++
      [Char.ofUInt8 c] ++ "' (supported: literals, '.', '\\d', '*', '+')")
  | none => pure (new pat)

end Pattern

end CalxMill.Nvidia
