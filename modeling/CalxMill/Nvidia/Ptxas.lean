import CalxMill.Rust.Str
import Mathlib.Data.List.ModifyLast

/-!
# The compiler's resource reports

`parsePtxasV` reads the lines of `ptxas -v`: an entry-function line opens a
kernel, and the `Function properties` and `Used` lines after it fill the last
kernel opened.
-/

namespace CalxMill.Nvidia

open Rust

structure KernelUsage where
  name : Str
  arch : Str
  registers : UInt32
  barriers : UInt32
  smemBytes : UInt32
  /-- constant-bank bytes as (bank, bytes), in report order -/
  cmemBytes : List (UInt32 × UInt32)
  lmemBytes : UInt32
  stackFrame : UInt32
  spillStores : UInt32
  spillLoads : UInt32
  deriving DecidableEq

def leadingU32 (s : Str) : Option UInt32 :=
  let digits := (trimStart s).takeWhile Char.isDigit
  if digits = [] then none else parseU32 digits

/-- The text of a `ptxas info` line behind the blanks and colons. -/
def infoText (line : Str) : Option Str :=
  ((trimStart line).dropPrefix? ("ptxas info" : Str)).map fun r ↦
    trim (r.dropWhile fun c ↦ c = ' ' || c = ':')

namespace KernelUsage

def opened (name arch : Str) : KernelUsage := ⟨name, arch, 0, 0, 0, [], 0, 0, 0, 0⟩

def cmemBank (clause : Str) : Option UInt32 :=
  ((splitOnce "bytes cmem[" clause).bind fun p ↦ p.2.dropSuffix? ("]" : Str)).bind parseU32

def usedClause (k : KernelUsage) (clause : Str) : KernelUsage :=
  let clause := trimStartMatches "used " (trim clause)
  match leadingU32 clause with
  | none => k
  | some n =>
      if lit "registers" <:+ clause then { k with registers := n } else
      if lit "barriers" <:+ clause then { k with barriers := n } else
      if lit "bytes smem" <:+ clause then { k with smemBytes := n } else
      if lit "bytes lmem" <:+ clause then { k with lmemBytes := n } else
      match cmemBank clause with
      | some bank => { k with cmemBytes := k.cmemBytes ++ [(bank, n)] }
      | none => k

def propertiesClause (k : KernelUsage) (clause : Str) : KernelUsage :=
  match leadingU32 clause with
  | none => k
  | some n =>
      if lit "stack frame" <:+ clause then { k with stackFrame := n } else
      if lit "spill stores" <:+ clause then { k with spillStores := n } else
      if lit "spill loads" <:+ clause then { k with spillLoads := n } else k

end KernelUsage

structure PtxasParser where
  out : List KernelUsage
  inProperties : Bool

namespace PtxasParser

def start : PtxasParser := ⟨[], false⟩

/-- A `ptxas info` line. -/
def info (p : PtxasParser) (rest : Str) : PtxasParser :=
  match rest.dropPrefix? ("Compiling entry function '" : Str) with
  | some r =>
      match splitOnce "'" r with
      | none => ⟨p.out, false⟩
      | some (name, tail) =>
          ⟨p.out ++ [.opened name ((tail.splitOn '\'')[1]?.getD [])], false⟩
  | none =>
      if lit "Function properties for " <+: rest then ⟨p.out, true⟩ else
      match rest.dropPrefix? ("Used " : Str) with
      | some r =>
          ⟨p.out.modifyLast fun k ↦ (splitCommaSpace r).foldl KernelUsage.usedClause k, false⟩
      | none => ⟨p.out, false⟩

def step (p : PtxasParser) (line : Str) : PtxasParser :=
  match infoText line with
  | some rest => p.info rest
  | none =>
      if p.inProperties then
        ⟨p.out.modifyLast fun k ↦
          (splitCommaSpace (trim line)).foldl KernelUsage.propertiesClause k, false⟩
      else p

end PtxasParser

def parsePtxasV (text : Str) : List KernelUsage :=
  ((lines text).foldl PtxasParser.step .start).out

example : parsePtxasV ("ptxas info    : Compiling entry function 'axpy' for 'sm_75'\n" ++
    lit "ptxas info    : Function properties for axpy\n" ++
    lit "    0 bytes stack frame, 8 bytes spill stores, 4 bytes spill loads\n" ++
    lit "ptxas info    : Used 10 registers, used 1 barriers, 380 bytes cmem[0]\n") =
    [⟨"axpy", "sm_75", 10, 1, 0, [(0, 380)], 0, 0, 8, 4⟩] := by decide +kernel

end CalxMill.Nvidia
