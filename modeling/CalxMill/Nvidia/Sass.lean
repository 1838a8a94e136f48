import CalxMill.Nvidia.Census
import CalxMill.Nvidia.Pattern
import CalxMill.Rust.Checked

/-!
# SASS text

The instruction scanner, the functions of a disassembly, and the hot-loop
locator.  A conversion that the source takes for granted, a checked
subtraction and a slice outside its list are panics here.
-/

namespace CalxMill.Nvidia

open Lib Rust

structure Instr where
  addr : ℕ
  base : Str
  text : Str
  deriving DecidableEq

/-! ## Scanning a line -/

def isHexDigit (c : Char) : Bool := c.isDigit || ('a' ≤ c && c ≤ 'f')

def hexDigitValue (c : Char) : ℕ := if c.isDigit then c.toNat - 48 else c.toNat - 87

def hexValue (digits : Str) : ℕ := digits.foldl (fun n c ↦ 16 * n + hexDigitValue c) 0

/-- `u64::from_str_radix(digits, 16)`, with its result expected. -/
def fromHex (digits : Str) : Exec Str ℕ :=
  if hexValue digits < 2 ^ 64 then pure (hexValue digits) else Exec.panic "hex digits parse"

/-- The white space a byte can be, at the start of a character. -/
def isBlank (c : Char) : Bool := c = ' ' || (9 ≤ c.toNat && c.toNat ≤ 13)

/-- Skip one or more characters of a kind. -/
def skipSome (p : Char → Bool) : Str → Option Str
  | [] => none
  | c :: s => if p c then some (s.dropWhile p) else none

/-- Skip `@!?P\d+` and the white space behind it, if there is an `@`. -/
def skipPredicate (s : Str) : Option Str :=
  match s with
  | '@' :: s =>
      match (s.dropPrefix? ['!']).getD s with
      | 'P' :: s => (skipSome Char.isDigit s).bind (skipSome isBlank)
      | _ => none
  | s => some s

def isMnemonicChar (c : Char) : Bool := c.isUpper || c.isDigit || c = '.'

def skipMnemonic : Str → Option Str
  | [] => none
  | c :: s => if c.isUpper then some (s.dropWhile isMnemonicChar) else none

/-- The instruction behind an address comment: the text from the predicate or
mnemonic on, and its part up to the end of the mnemonic. -/
def scanOp (body : Str) : Option (Str × Str) := do
  let tail ← skipSome isBlank body
  let s ← skipPredicate tail
  let rest ← skipMnemonic s
  pure (tail, tail.take (tail.length - rest.length))

structure Scan where
  addr : ℕ
  tail : Str
  span : Str
  deriving DecidableEq

/-- The digits of an address comment, and what follows it. -/
def comment (s : Str) : Option (Str × Str) :=
  if s.takeWhile isHexDigit = [] then none else
  ((s.dropWhile isHexDigit).dropPrefix? "*/").map fun body ↦ (s.takeWhile isHexDigit, body)

def scanInstr : Str → Exec Str (Option Scan)
  | '/' :: '*' :: s =>
      match comment s with
      | none => scanInstr s
      | some (hex, body) => do
          let addr ← fromHex hex
          match scanOp body with
          | some (tail, span) => pure (some ⟨addr, tail, span⟩)
          | none => scanInstr s
  | _ :: s => scanInstr s
  | [] => pure none

/-- A line that the scanner refuses for its uniform-datapath predicate. -/
def uniformDrop (line : Str) : Exec Str Bool := do
  match ← scanInstr line with
  | some _ => pure false
  | none => pure ((splitOnce "*/" line).any fun p ↦
      lit "@UP" <+: trimStart p.2 || lit "@!UP" <+: trimStart p.2)

def uniformPredicatedDrops (sass : Str) : Exec Str ℕ :=
  (fun l ↦ l.countP id) <$> (lines sass).mapM uniformDrop

/-! ## Functions -/

def functionName (line : Str) : Option Str :=
  ((trimStart line).dropPrefix? "Function : ").bind fun rest ↦ (splitWhitespace rest).head?

/-- The part of a mnemonic in front of its first dot. -/
def baseOf (mnemonic : Str) : Str := (mnemonic.splitOn '.').headD []

def instrOf (s : Scan) : Instr :=
  let text := trim (s.tail.takeWhile (· ≠ ';'))
  let mnemonic :=
    if text.head? = some '@' then ((splitWhitespace text)[1]?).getD []
    else (splitWhitespace text).headD []
  ⟨s.addr, baseOf mnemonic, text⟩

/-- Append to the function read last. -/
def pushInstr (out : List (Str × List Instr)) (x : Instr) : List (Str × List Instr) :=
  out.dropLast ++ (out.getLast?.map fun f ↦ (f.1, f.2 ++ [x])).toList

def parseLine (out : List (Str × List Instr)) (line : Str) :
    Exec Str (List (Str × List Instr)) :=
  match functionName line with
  | some name => pure (out ++ [(name, [])])
  | none =>
      if out = [] then pure out else
      (fun s ↦ s.elim out fun s ↦ pushInstr out (instrOf s)) <$> scanInstr line

def parseFunctions (sass : Str) : Exec Str (List (Str × List Instr)) :=
  (lines sass).foldlM parseLine []

/-! ## The hot loop -/

/-- The digits of a branch target behind `BRA`. -/
def targetDigits (s : Str) : Option Str := do
  let s ← skipSome isBlank s
  let s ← s.dropPrefix? "0x"
  if s.takeWhile isHexDigit = [] then none else pure (s.takeWhile isHexDigit)

def braTarget : Str → Exec Str (Option ℕ)
  | 'B' :: 'R' :: 'A' :: s =>
      match targetDigits s with
      | some hex => some <$> fromHex hex
      | none => braTarget s
  | _ :: s => braTarget s
  | [] => pure none

/-- The index a backward branch goes to. -/
def backward (instrs : List Instr) (x : Instr) : Exec Str (Option ℕ) :=
  if x.base ≠ "BRA" then pure none else
  (fun tgt ↦ tgt.bind fun t ↦ if x.addr ≤ t then none else instrs.findIdx? (·.addr = t)) <$>
    braTarget x.text

/-- Keep the wider of the best body so far and the body of a new branch. -/
def widen (best : Option (ℕ × ℕ)) (j i : ℕ) : Exec Str (Option (ℕ × ℕ)) :=
  match best with
  | none => pure (some (j, i))
  | some b => do
      let span ← checkedSub i j
      let bestSpan ← checkedSub b.2 b.1
      pure (if bestSpan < span then some (j, i) else best)

def hotLoop (instrs : List Instr) : Exec Str (Option (ℕ × ℕ)) :=
  instrs.zipIdx.foldlM (fun best x ↦ do
    let j ← backward instrs x.1
    match j with
    | none => pure best
    | some j => widen best j x.2) none

/-- `instrs[lo..=hi]` -/
def slice (instrs : List Instr) (lo hi : ℕ) : Exec Str (List Instr) :=
  if lo ≤ hi + 1 ∧ hi < instrs.length then pure ((instrs.drop lo).take (hi + 1 - lo))
  else Exec.panic "slice index out of range"

/-! ## Counting -/

/-- Add the hot loop of a matching function. -/
def mixFunction (kernel : Pattern) (mix : Census × ℕ) (f : Str × List Instr) :
    Exec Str (Census × ℕ) :=
  if !kernel.isMatch f.1 then pure mix else do
    let best ← hotLoop f.2
    match best with
    | none => pure mix
    | some (lo, hi) => do
        let body ← slice f.2 lo hi
        pure (body.foldl (fun c x ↦ c.add x.base 1) mix.1, mix.2 + 1)

def loopMix (sass : Str) (kernel : Pattern) : Exec Str (Census × ℕ) := do
  let functions ← parseFunctions sass
  functions.foldlM (mixFunction kernel) (Census.empty, 0)

/-- The counter of one scanned instruction: its whole mnemonic or the base. -/
def opOf (full : Bool) (s : Scan) : Str :=
  let mnemonic :=
    if s.span.head? = some '@' then ((splitWhitespace s.span).getLast?).getD [] else s.span
  if full then mnemonic else baseOf mnemonic

/-- The kernels seen so far, and the index of the one being read. -/
structure CensusState where
  counts : List (Str × Census)
  current : Option ℕ

def openKernel (kernel : Pattern) (name : Str) (st : CensusState) : CensusState :=
  if !kernel.isMatch name then { st with current := none } else
  match st.counts.findIdx? (·.1 = name) with
  | some i => { st with current := some i }
  | none => ⟨st.counts ++ [(name, Census.empty)], some st.counts.length⟩

def countLine (kernel : Pattern) (full : Bool) (st : CensusState) (line : Str) :
    Exec Str CensusState :=
  match functionName line with
  | some name => pure (openKernel kernel name st)
  | none =>
      match st.current with
      | none => pure st
      | some idx =>
          (fun s ↦ s.elim st fun s ↦
            { st with counts := st.counts.modify idx fun k ↦ (k.1, k.2.add (opOf full s) 1) }) <$>
            scanInstr line

def censusPerKernel (sass : Str) (kernel : Pattern) (full : Bool) :
    Exec Str (List (Str × Census)) :=
  CensusState.counts <$> (lines sass).foldlM (countLine kernel full) ⟨[], none⟩

end CalxMill.Nvidia
