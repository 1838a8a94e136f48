import CalxMill.Nvidia.Sass
import Mathlib.Data.List.MinMax
import Mathlib.Data.List.Sort

/-!
# The purity gate

Each bench kernel's timed loop holds exactly the intended op.  A kernel is
matched to its expectation by name, and its hot loop is judged by size, by the
count of primary ops and by what else is in it.
-/

namespace CalxMill.Nvidia

open Lib Rust

def control : List Str := ["IADD3", "ISETP", "BRA", "NOP"]

def exemptBinaries : List (Str × Str) :=
  [("launch.bin", "empty/identity kernels by design; the rows are host-side dispatch"),
   ("marshal.bin", "argument-marshalling probe; kernels empty by design"),
   ("l2bw.bin", "loop-structure parse quirk; the row self-validates via the cg-vs-default policy contrast (382 vs 1110 GB/s)"),
   ("fa_mini.bin", "composite kernels; gated by census-match mode instead"),
   ("nccl_pcie.bin", "host-side NCCL/cudaMemcpy timing; no timed device loops"),
   ("icache.bin", "loop bodies sized to exceed L0 BY DESIGN (the measurement)")]

structure Expect where
  primary : List Str
  companions : List Str
  min : Option ℕ

def exp (primary : List Str) : Option Expect := some ⟨primary, [], none⟩

def expC (primary companions : List Str) : Option Expect := some ⟨primary, companions, none⟩

def expM (primary companions : List Str) (min : ℕ) : Option Expect :=
  some ⟨primary, companions, some min⟩

def expect : List (Str × Option Expect) :=
  [("OpFFMA", exp ["FFMA"]),
   ("OpFADD", exp ["FADD"]),
   ("OpFMUL", exp ["FMUL"]),
   ("OpIADD3", exp ["IADD3", "LOP3"]),
   ("OpIMAD", exp ["IMAD"]),
   ("OpLOP3", exp ["LOP3"]),
   ("OpSHF", exp ["SHF"]),
   ("OpSEL", expC ["SEL"] ["ISETP"]),
   ("OpISETPSEL", exp ["ISETP", "SEL"]),
   ("OpFSETPSEL", exp ["FSETP", "SEL", "FSEL"]),
   ("OpFSEL", expC ["SEL", "FSEL"] ["FSETP"]),
   ("OpPOPC", exp ["POPC"]),
   ("OpFLO", exp ["FLO"]),
   ("OpPRMT", exp ["PRMT"]),
   ("OpIDP4A_S8", exp ["IDP"]),
   ("OpIDP4A_U8", exp ["IDP"]),
   ("OpHFMA2", exp ["HFMA2"]),
   ("OpDADD", exp ["DADD"]),
   ("OpDFMA", exp ["DFMA"]),
   ("OpIDIV_U32", none)]

def expectFn : List (Str × Option Expect) :=
  List.map (fun e ↦ (lit e.1, e.2))
  [("smem_chase_kernel", exp ["LDS"]),
   ("smem_conflict_kernel", exp ["LDS"]),
   ("smem_bw_kernel", expC ["LDS"] ["FADD", "FFMA", "IMAD", "LOP3", "LEA", "SHF", "MOV"]),
   ("l1_chase_kernel", exp ["LDG"]),
   ("pchase_kernel", exp ["LDG"]),
   ("peer_chase_kernel", exp ["LDG"]),
   ("rt_initiator", none),
   ("rt_responder", none),
   ("vis_initiator", none),
   ("vis_responder", none),
   ("peer_atom_chase", expM ["ATOMG"] [] 8),
   ("stream_writer", none),
   ("local_read_bw", expM ["LDG"] ["FADD", "IMAD", "LEA", "SHF", "MOV", "LOP3", "SEL"] 4),
   ("peer_ring_init", none),
   ("peer_read_bw_kernel", expM ["LDG"] ["FADD", "IMAD", "LEA", "SHF", "MOV", "LOP3"] 4),
   ("peer_write_bw_kernel", expM ["STG"] ["IMAD", "LEA", "SHF", "MOV", "LOP3"] 1),
   ("peer_burst_kernel", expM ["STG"]
      ["MEMBAR", "CCTL", "ERRBAR", "IMAD", "LEA", "SHF", "MOV", "LOP3", "SEL"] 0),
   ("policy_chase_kernel", exp ["LDG"]),
   ("policy_ring_init", none),
   ("carveout_chase_kernel", exp ["LDG"]),
   ("carveout_ring_init", none),
   ("pchase_ring_init", none),
   ("tlb_chase_kernel", exp ["LDG"]),
   ("tlb_ring_init", none),
   ("tex_chase_kernel", exp ["LDG"]),
   ("tex_ring_init", none),
   ("icache_kernel", exp ["FFMA"]),
   ("hmma_f16_tput_kernel", exp ["HMMA"]),
   ("hmma_f32_tput_kernel", exp ["HMMA"]),
   ("hmma_f16_lat_kernel", exp ["HMMA"]),
   ("imma_s8_tput_kernel", exp ["IMMA"]),
   ("atom_shared_lat_kernel", expM ["ATOMS"] [] 16),
   ("atom_global_lat_kernel", expM ["ATOMG"] [] 16),
   ("atom_cas_lat_kernel", expM ["ATOMG"] [] 16),
   ("const_chase_div_kernel", exp ["LDC"]),
   ("const_chase_kernel", exp ["ULDC"]),
   ("dram_read_kernel", expM ["LDG"] ["FADD", "IMAD", "LEA", "SHF", "MOV", "LOP3"] 4),
   ("dram_write_kernel", expM ["STG"] ["IMAD", "LEA", "SHF", "MOV", "LOP3"] 1),
   ("dram_copy_kernel", expM ["LDG", "STG"] ["IMAD", "LEA", "SHF", "MOV", "LOP3"] 2),
   ("l2bw_kernel", none),
   ("l1bw_kernel", expC ["LDG"] ["FADD", "FFMA", "IMAD", "LOP3", "LEA", "SHF", "MOV"]),
   ("stride_kernel", expM ["LDG"] ["IMAD", "LEA", "SHF", "LOP3", "MOV", "IADD3"] 12),
   ("cvt_f2f", exp ["F2F", "HADD2"]),
   ("cvt_i2f", exp ["F2I", "I2F"]),
   ("cvt_derived_lat_kernel", expM ["F2F", "HADD2", "F2I", "I2F"] ["FADD"] 32),
   ("f2f_pair", exp ["F2F", "HADD2"]),
   ("i2f_pair", exp ["F2I", "I2F"]),
   ("mufu_ex2", exp ["MUFU"]),
   ("MufuSinE", exp ["MUFU", "FMUL"]),
   ("MufuRcpE", exp ["MUFU", "FFMA", "FADD"]),
   ("MufuCosE", exp ["MUFU", "FMUL"]),
   ("mufu_lat_kernel", exp ["MUFU"]),
   ("mufu_tput_kernel", exp ["MUFU"]),
   ("bar_kernel", expM ["BAR"] [] 8),
   ("bar_direct_kernel", expM ["BAR"] ["CS2R", "S2R", "MOV", "SHF", "LEA", "IMAD"] 1),
   ("bar_tput_kernel", expM ["BAR"] [] 8),
   ("vote_lat_kernel", expM ["VOTE", "VOTEU"]
      ["SHF", "LOP3", "ISETP", "MOV", "PLOP3", "P2R", "R2P", "SEL"] 16),
   ("vote_tput_kernel", expM ["VOTE", "VOTEU"]
      ["SHF", "LOP3", "ISETP", "MOV", "PLOP3", "P2R", "R2P", "SEL"] 16),
   ("ldsm_lat_kernel", expM ["LDSM"] ["LOP3", "MOV", "SHF", "LEA", "IMAD"] 16),
   ("ldsm_tput_kernel", expM ["LDSM"] ["LOP3", "MOV", "SHF", "LEA", "IMAD"] 16),
   ("line_chase_kernel", exp ["LDG"]),
   ("line_ring_init", none),
   ("atom_shared_cas_lat_kernel", expM ["ATOMS"] [] 16),
   ("atom_shared_tput_kernel", expM ["ATOMS", "REDS"] [] 16),
   ("atom_global_tput_kernel", expM ["RED", "ATOMG"] [] 16),
   ("peer_cas_chase", expM ["ATOMG"] [] 8),
   ("peer_atom_tput", expM ["RED", "ATOMG"] [] 8),
   ("empty_kernel", none),
   ("k_noargs", none),
   ("k_args", none),
   ("shfl_lat_kernel", exp ["SHFL"]),
   ("branch_div_kernel", expM ["FFMA"]
      ["BSSY", "BSYNC", "SEL", "MOV", "IMAD", "PLOP3", "SHF", "LOP3"] 4),
   ("branch_pred_kernel", expM ["FFMA"] ["SEL", "MOV", "IMAD", "PLOP3", "SHF", "LOP3"] 4),
   ("shfl_tput_kernel", exp ["SHFL"]),
   ("fa_mini_kernel", none),
   ("ffma_anchor", exp ["FFMA"]),
   ("stream_anchor", expM ["LDG"] ["FADD", "IMAD", "LEA", "SHF", "LOP3", "MOV"] 12),
   ("smemtile_anchor", expM ["LDS", "FFMA"] ["IMAD", "LEA", "SHF", "LOP3", "MOV"] 48),
   ("capmix_anchor", exp ["FFMA", "LOP3"]),
   ("latbound_demo", exp ["FFMA"]),
   ("mixp_popc_ldg", expM ["POPC", "LDG"] ["FADD", "IMAD", "LEA", "SHF", "MOV", "LOP3"] 64),
   ("mixp_hmma_hfma2", expM ["HMMA", "HFMA2"] [] 32),
   ("inject_kernel", expM ["FFMA", "LOP3", "LDG"]
      ["IDP", "POPC", "SEL", "ISETP", "IMAD", "LEA", "MOV", "SHF", "FADD"] 40)]

structure GateOpts where
  minPrimary : ℕ
  l0Bytes : ℕ
  stagingBudget : ℕ

def sortedDedup (items : List Str) : List Str := (items.insertionSort (· ≤ ·)).dedup

/-! ## Matching a kernel to its expectation -/

/-- `expect = none` is a sequence op; `union` is the expectation of a mix
kernel; `fnMin` is set for the bespoke kernels. -/
structure GateCase where
  label : Str
  expect : Option Expect
  fnMin : Option ℕ
  union : Option (List Str × List Str)

def kinds : List Str := ["lat_kernel", "tput_kernel", "pure_kernel", "mix_kernel"]

/-- The ops whose struct name is in the kernel name, without those that are
only in it as a part of another. -/
def opMatches (name : Str) : List (Str × Option Expect) :=
  let found := expect.filter fun o ↦ contains name (o.1 ++ lit "E")
  let shadowed := (found.filter fun o ↦ found.any fun p ↦
    o.1 ≠ p.1 && contains p.1 o.1 && contains name (p.1 ++ lit "E")).map (·.1)
  found.filter fun o ↦ o.1 ∉ shadowed

def mixCase (kind : Str) (ops : List (Str × Option Expect)) : Option GateCase :=
  if ops = [] ∨ ops.any (·.2.isNone) then none else
  let names := (ops.map (·.1)).insertionSort (· ≤ ·)
  let primary := ops.flatMap fun o ↦ (o.2.map (·.primary)).getD []
  let companions := ops.flatMap fun o ↦ (o.2.map (·.companions)).getD []
  some ⟨kind ++ "<" ++ join "+" names ++ ">", none, none, some (primary, companions)⟩

/-- The case of a kernel, `none` when the gate passes over it. -/
def gateCase (opts : GateOpts) (name : Str) : Option GateCase :=
  match expectFn.find? (fun e ↦ contains name e.1) with
  | some (key, e) =>
      e.map fun e ↦ ⟨"fn<" ++ key ++ ">", some e, some (e.min.getD opts.minPrimary), none⟩
  | none =>
      (kinds.find? (contains name ·)).bind fun kind ↦
        if kind = "mix_kernel" then mixCase kind (opMatches name) else
        ((opMatches name).argmax (·.1.length)).map fun o ↦
          ⟨kind ++ "<" ++ o.1 ++ ">", o.2, none, none⟩

/-! ## Judging a hot loop -/

/-- `body.last().addr - body[0].addr + 16` on `u64`. -/
def bodySize (body : List Instr) : Exec Str ℕ := do
  let last ← Exec.expect "body is non-empty" body.getLast?
  let first ← Exec.expect "index out of bounds" body.head?
  let span ← checkedSub last.addr first.addr
  if span + 16 < 2 ^ 64 then pure (span + 16) else Exec.panic "attempt to add with overflow"

def sequenceLine (opts : GateOpts) (label : Str) (body : List Instr) (size : ℕ) : Bool × Str :=
  if opts.l0Bytes < size then
    (true, "FAIL " ++ label ++ ": loop body " ++ natStr size ++ " B exceeds L0 budget " ++
      natStr opts.l0Bytes ++ " B\n")
  else (false, "PASS " ++ label ++ ": sequence op, " ++ natStr body.length ++ " instrs, " ++
    natStr size ++ " B (no purity gate)\n")

def purityLine (opts : GateOpts) (label : Str) (primary companions : List Str) (fnMin : Option ℕ)
    (body : List Instr) (size : ℕ) : Bool × Str :=
  let isFn := fnMin.isSome
  let nPrimary := body.countP (·.base ∈ primary)
  let aliens := (body.map (·.base)).filter fun b ↦
    b ∉ primary && b ∉ companions && b ∉ control
  if opts.l0Bytes < size then
    let budget : Str := if isFn then [] else " " ++ natStr opts.l0Bytes ++ " B"
    (true, "FAIL " ++ label ++ ": loop body " ++ natStr size ++ " B exceeds L0 budget" ++ budget ++
      "\n")
  -- the count is compared as a `u32`
  else if nPrimary % 2 ^ 32 < fnMin.getD opts.minPrimary then
    let need : Str := if isFn then " in loop" else
      " (" ++ join "/" (primary.insertionSort (· ≤ ·)) ++ ") in loop, need >= " ++
        natStr opts.minPrimary
    (true, "FAIL " ++ label ++ ": only " ++ natStr nPrimary ++ " primary ops" ++ need ++ "\n")
  else if opts.stagingBudget < aliens.length then
    let inLoop : Str := if isFn then [] else " in timed loop"
    (true, "FAIL " ++ label ++ ": " ++ natStr aliens.length ++ " non-primary ops" ++ inLoop ++
      " (budget " ++ natStr opts.stagingBudget ++ "): " ++ join " " (sortedDedup aliens) ++ "\n")
  else
    let extra : Str :=
      if aliens = [] then [] else
      if isFn then " (+" ++ natStr aliens.length ++ " staging)" else
      " (+" ++ natStr aliens.length ++ " staging: " ++ join " " (sortedDedup aliens) ++ ")"
    (false, "PASS " ++ label ++ ": " ++ natStr nPrimary ++ " primary, " ++ natStr body.length ++
      " instrs, " ++ natStr size ++ " B" ++ extra ++ "\n")

/-- Whether the kernel fails, and the line that says so. -/
def judgeBody (opts : GateOpts) (case : GateCase) (body : List Instr) (size : ℕ) : Bool × Str :=
  match case.union, case.expect with
  | some (primary, companions), _ =>
      purityLine opts case.label primary companions none body size
  | none, some e => purityLine opts case.label e.primary e.companions case.fnMin body size
  | none, none => sequenceLine opts case.label body size

def judge (opts : GateOpts) (case : GateCase) (instrs : List Instr) : Exec Str (Bool × Str) := do
  let best ← hotLoop instrs
  match best with
  | none => pure (true, "FAIL " ++ case.label ++ ": no loop found\n")
  | some (lo, hi) => do
      let body ← slice instrs lo hi
      let size ← bodySize body
      pure (judgeBody opts case body size)

/-- The `u32` counters and the report of a gate run. -/
structure GateState where
  out : Str
  failures : ℕ
  checked : ℕ

def checkFunction (opts : GateOpts) (st : GateState) (f : Str × List Instr) :
    Exec Str GateState :=
  match gateCase opts f.1 with
  | none => pure st
  | some case => do
      let checked ← addU32 st.checked 1
      let (failed, line) ← judge opts case f.2
      let failures ← addU32 st.failures (if failed then 1 else 0)
      pure ⟨st.out ++ line, failures, checked⟩

/-- The report and the exit code. -/
def check (basename sass : Str) (opts : GateOpts) : Exec Str (Str × ℕ) :=
  match exemptBinaries.find? (·.1 = basename) with
  | some (_, reason) => pure ("EXEMPT " ++ basename ++ ": " ++ reason ++ "\n", 0)
  | none => do
      let functions ← parseFunctions sass
      let st ← functions.foldlM (checkFunction opts) ⟨[], 0, 0⟩
      if st.checked = 0 then
        pure (st.out ++ "FAIL: no bench kernels found in binary\n", 1)
      else
        pure (st.out ++ natStr st.checked ++ " kernels checked, " ++ natStr st.failures ++
          " failures\n", if 0 < st.failures then 1 else 0)

end CalxMill.Nvidia
