import CalxMill.Nvidia.Census
import CalxMill.Nvidia.Rates
import CalxMill.Rust.Checked
import CalxMill.SteadyState

/-!
# The projection of an op mix

A census is folded through the rate table into the demand on each resource.
`opClass` sorts the mnemonics, `opRate` finds the pipe and the rate of those
that go to a pipe, and `charge` is the body of the loop over the census.
-/

namespace CalxMill.Nvidia

open Lib Rust

/-- Instructions per SM per cycle. -/
def ISSUE_CAP : F64 := .fin 4

/-- The table row with the rate of a mnemonic base. -/
def OP_TABLE_ROW : List (Str × Str) :=
  [("FFMA", "alu.ffma.tput"), ("FADD", "alu.fadd.tput"), ("FMUL", "alu.fmul.tput"),
    ("IMAD", "alu.imad.tput"), ("IDP", "alu.idp4a.tput"), ("HFMA2", "alu.hfma2.tput"),
    ("LOP3", "alu.lop3.tput"), ("SHF", "alu.shf.tput"), ("SEL", "alu.sel.tput"),
    ("IADD3", "alu.iadd3.tput"), ("ISETP", "alu.isetp.tput"), ("PRMT", "alu.prmt.tput"),
    ("POPC", "alu.popc.tput"), ("FLO", "alu.flo.tput"), ("DADD", "alu.dadd.tput"),
    ("DFMA", "alu.dfma.tput"), ("MUFU", "sfu.mufu.ex2.tput"), ("F2F", "cvt.f2f.tput"),
    ("HADD2", "cvt.f2f.tput"), ("F2I", "cvt.i2f_f2i.tput"), ("I2F", "cvt.i2f_f2i.tput"),
    ("HMMA", "tensor.hmma.1688.tput"), ("IMMA", "tensor.imma.8816.tput")]

def TENSOR_HMMA_PER_SM_CLK : F64 := .fin 0.5

def PIPE_OF : List (Str × Str) :=
  List.map (fun e ↦ (lit e.1, lit e.2)) <|
  [("HMMA", "tensor"), ("IMMA", "tensor"), ("BMMA", "tensor"), ("FFMA", "fma"), ("FADD", "fma"),
    ("FMUL", "fma"), ("IMAD", "fma"), ("IDP", "fma"), ("FSETP", "fma"), ("FSEL", "alu"),
    ("FMNMX", "fma"), ("HADD2", "own"), ("HMUL2", "own"), ("HFMA2", "own"), ("LOP3", "alu"),
    ("SHF", "alu"), ("SEL", "alu"), ("IADD3", "alu"), ("ISETP", "alu"), ("PRMT", "alu"),
    ("LEA", "alu"), ("MOV", "alu"), ("BFE", "alu"), ("BFI", "alu"), ("POPC", "own_xu"),
    ("FLO", "own_xu"), ("MUFU", "own_xu"), ("F2F", "own_xu"), ("F2I", "own_xu"),
    ("I2F", "own_xu"), ("DADD", "own_fp64"), ("DFMA", "own_fp64"), ("DMUL", "own_fp64")]

def CONTROL : List Str := ["BRA", "NOP", "EXIT", "CS2R", "S2R", "BSSY", "BSYNC", "YIELD"]

def LSU : List Str := ["LDG", "STG", "LDS", "STS", "LDC", "LDL", "STL", "LDSM"]

/-- Bytes per thread by width suffix. -/
def WIDTH_BYTES : List (Str × ℕ) :=
  [("8", 1), ("U8", 1), ("S8", 1), ("16", 2), ("U16", 2), ("S16", 2), ("32", 4), ("64", 8),
    ("128", 16)]

inductive MemClass where
  | none
  | dram
  | l1
  deriving DecidableEq

structure ProjectResult where
  ppmCycles : F64
  ppmBound : Str
  addCycles : F64
  perResource : List (Str × F64)
  defaulted : List Str

/-! ## Mnemonics -/

def base (mn : Str) : Str := mn.takeWhile (· ≠ '.')

/-- The last width suffix of a mnemonic; without one the access is 32 bits. -/
def memBytes (mn : Str) : ℕ :=
  ((mn.splitOn '.').reverse.findSome? (WIDTH_BYTES.lookup ·)).getD 4

/-- Measured: 64 B/clk/SM, so `64 / (32 * width)`. -/
def ldsInstRate (bytesPerThread : ℕ) : F64 := .fin 64 / (.fin 32 * .fin bytesPerThread)

/-- The number of 8x8 matrices that an `LDSM` moves. -/
def ldsmCount (mn : Str) : ℕ :=
  (((mn.splitOn '.').getLast?.bind parseU64).filter fun c ↦ c = 1 ∨ c = 2 ∨ c = 4).getD 1

/-- How the census treats a mnemonic: control flow, a shared-memory access of
so many bytes per thread, unmodelled local traffic, memory traffic of so many
bytes per warp, or an op of some pipe. -/
inductive OpClass where
  | control
  | sharedMem (bytesPerThread : ℕ)
  | localMem
  | memory (bytesPerWarp : ℕ)
  | pipe
  deriving DecidableEq

def opClass (mn : Str) : OpClass :=
  if base mn ∈ CONTROL then .control else
  if base mn ∈ LSU then
    if base mn = "LDS" ∨ base mn = "STS" then .sharedMem (memBytes mn) else
    if base mn = "LDSM" then .sharedMem (4 * ldsmCount mn) else
    if base mn = "LDL" ∨ base mn = "STL" then .localMem else
    .memory (memBytes mn * 32)
  else .pipe

/-- The MMA shape of a tensor mnemonic. -/
def tensorShape (mn : Str) : Option Str :=
  if base mn = "HMMA" ∨ base mn = "IMMA" then
    (mn.splitOn '.')[1]?.filter fun s ↦ s ≠ [] ∧ s.all Char.isDigit
  else none

/-- The row of the exact shape, then the row of the base. -/
def shapeRow (mn : Str) : Option Str :=
  (tensorShape mn).map fun shape ↦
    "tensor." ++ toAsciiLowercase (base mn) ++ "." ++ shape ++ ".tput"

def baseRow (mn : Str) : Option Str := OP_TABLE_ROW.lookup (base mn)

def defaultPipe (mn : Str) : Str := (PIPE_OF.lookup (base mn)).getD "alu"

def defaultRate (pipe : Str) : F64 :=
  if pipe = "fma" ∨ pipe = "alu" then .fin 2 else
  if pipe = "tensor" then TENSOR_HMMA_PER_SM_CLK else .fin 0.5

/-! ## The loop over the census -/

/-- The pipe and the rate of an op, and the marks for the `defaulted` list. -/
structure OpRate where
  pipe : Str
  rate : F64
  marks : List Str
  deriving DecidableEq

def opRate (rates : Rates) (mn : Str) : Exec Str OpRate :=
  let shapeMeasured := (shapeRow mn).bind rates.get
  let baseMeasured := (baseRow mn).bind rates.get
  -- a tensor shape without its own measured row
  let marks := if shapeMeasured.isNone ∧ (tensorShape mn).isSome ∧ baseMeasured.isSome then [mn]
    else []
  match shapeMeasured.or baseMeasured with
  | some r => do
      let rate ← Exec.expect "rate value parses" (F64.parse r.value)
      pure ⟨if r.pipe = [] then defaultPipe mn else r.pipe, rate, marks⟩
  | none => pure ⟨defaultPipe mn, defaultRate (defaultPipe mn), marks ++ [mn]⟩

def ofU64 (n : ℕ) : F64 := .fin n

/-- The variables of the loop. -/
structure Demands (K : Type*) where
  pipes : List (Str × K)
  memBytesTotal : K
  smemCycles : K
  totalInsts : ℕ
  defaulted : List Str

def charge (rates : Rates) (d : Demands F64) (e : Str × ℕ) : Exec Str (Demands F64) := do
  let totalInsts ← addU64 d.totalInsts e.2
  match opClass e.1 with
  | .control => pure { d with totalInsts }
  | .sharedMem b =>
      let cycles := ofU64 e.2 * (.fin 1 / ldsInstRate b)
      pure { d with totalInsts, smemCycles := d.smemCycles + cycles }
  | .localMem => pure { d with totalInsts, defaulted := d.defaulted ++ [e.1] }
  | .memory b => do
      let bytes ← mulU64 e.2 b
      pure { d with totalInsts, memBytesTotal := d.memBytesTotal + ofU64 bytes }
  | .pipe => do
      let op ← opRate rates e.1
      let cycles := ofU64 e.2 / op.rate
      pure { d with
        totalInsts
        pipes := Assoc.alter (fun c ↦ c.getD 0 + cycles) op.pipe d.pipes
        defaulted := d.defaulted ++ op.marks }

/-! ## The projection -/

/-- The L1 bandwidth and the marks for the `defaulted` list. -/
def l1Budget (rates : Rates) : Exec Str (F64 × List Str) :=
  match rates.get "mem.l1.bw" with
  | some r => do
      let bw ← Exec.expect "mem.l1.bw value parses" (F64.parse r.value)
      pure (bw, [])
  | none => pure (.fin 32, ["mem.l1.bw(default32)"])

/-- The byte budget is resolved only when there is memory traffic. -/
def byteBudget (rates : Rates) (memClass : MemClass) (dramBudget memBytesTotal : F64) :
    Exec Str (F64 × List Str) :=
  if memBytesTotal = 0 then pure (.fin 1, []) else
  match memClass with
  | .dram => pure (dramBudget, [])
  | _ => l1Budget rates

def resourceName (pipeNames : List Str) : ResourceKind → Exec Str Str
  | .pipe i => do
      let p ← Exec.expect "index out of bounds" pipeNames[i]?
      pure ("pipe:" ++ p)
  | .localStoreBw => pure "smem"
  | .memoryBw => pure "mem"
  | .issue => pure "issue"

/-- The resources of the steady state under their names. -/
def named (warps : F64) (d : Demands F64) (budget : F64 × List Str) : Exec Str ProjectResult := do
  let ss := projectMix warps (d.pipes.map (·.2)) d.smemCycles d.memBytesTotal budget.1
    (ofU64 d.totalInsts) ISSUE_CAP
  let name := resourceName (d.pipes.map (·.1))
  let bound ← Exec.expect "index out of bounds" ss.perResource[ss.ppmBound]?
  let ppmBound ← name bound.1
  let perResource ← ss.perResource.mapM fun e ↦ (fun n ↦ (n, e.2)) <$> name e.1
  pure ⟨ss.ppmCycles, ppmBound, ss.addCycles, perResource, d.defaulted ++ budget.2⟩

def project (census : Census) (warps : F64) (memClass : MemClass) (rates : Rates)
    (dramBudget : F64) : Exec Str ProjectResult := do
  let d ← census.items.foldlM (charge rates) ⟨[], 0, 0, 0, []⟩
  let budget ← byteBudget rates memClass dramBudget d.memBytesTotal
  named warps d budget

end CalxMill.Nvidia
