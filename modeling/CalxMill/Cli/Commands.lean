import CalxMill.Cli.Console
import CalxMill.Gate.Run
import CalxMill.Latency
import CalxMill.Nvidia.CensusMatch
import CalxMill.Nvidia.Ncu
import CalxMill.Nvidia.Ptxas
import CalxMill.Nvidia.Report
import CalxMill.Nvidia.Verify
import CalxMill.Nvidia.WarpOccupancy
import CalxMill.OccupancyPct
import CalxMill.TeleSummary

/-!
# The commands

One run of the tool: the first word selects the command, and each command
splits the words behind it, reads its files and prints as it goes.
-/

namespace CalxMill.Cli

open Lib Rust Nvidia

def usage : Str :=
  "usage: calx-mill <command> [args]

commands:
  project <census.csv> --table <ops.csv> [--kernel PAT] [--warps N]
          [--mem-class none|dram|l1] [--dram-budget B]
          [--regs-per-thread N --smem-block B --block-threads N]
      PPM/ADD projection of an op-mix census against a measured op table
      (project.py). The optional resource triple adds the core's
      concurrency/occupancy line.
  census <bin|.sass> [--kernel PAT] [--full] [-o FILE]
      per-kernel SASS op histogram (sass_census.py)
  check-sass <bin|.sass> [--min-primary N] [--l0-bytes N] [--staging-budget N]
  check-sass --census-match BIN:PAT BIN:PAT [--tolerance-pp F]
      the timed-loop purity gate (check_sass.py)
  mk-table <results-dir> --priors FILE [--na FILE] -o FILE
      aggregate measurement CSVs into the ops table (mk_table.py)
  verify-projection <root>
      the absolute projection gate over a tu102-shaped tree
      (verify_projection.py)
  ptxas <ptxas-v-output> [--block-threads N] [--grid-blocks N]
        [--instances N] [--block-smem B]
      parse `nvcc -Xptxas -v` resource usage; with a block size, fold each
      kernel through the core's occupancy; with a grid, check cooperative
      co-residency (blocks/instance x instances vs the grid, default 72
      SMs; --block-smem overrides static smem with the dynamic launch value)
  ncu <export.csv>
      parse an `ncu --csv` metric export; achieved occupancy per launch
  telemetry <file.tele> [--strict]
      summarize the megakernel's on-device records: per-op wall, heavy hitters,
      realized overlap; counts malformed rows, roofline (T1) and clock-implausible
      rejects. --strict exits non-zero when any row was skipped.
  latency --chains C --depth D --cyc-per-op R --op-latency L
          [--reg-budget B --base-regs BR --regs-per-chain RC --spend S]
      the dependency-latency projection MII = max(C*D*R, D*L) (call/0028):
      cycles, bottleneck, utilization (Little's Law C*R/L), and the L/R hide
      threshold. e.g. the FATTN QK chain: --chains 4 --depth 64 --cyc-per-op 2
      --op-latency 14 -> latency-bound, 57% (7 chains to hide).
      With --reg-budget, also derives the chains the register file sustains
      ((B-BR)/RC) and, with --spend, whether an overlap lever spending S
      registers keeps the recurrence hidden or re-exposes it (call/0031).

  compose --mem-cycles M --compute-cycles C
          [--chains .. --depth .. --cyc-per-op .. --op-latency ..
           --reg-budget B --base-regs BR --regs-per-chain RC --spend S]
      whole-op phase composition (call/0033): serial = M+C (today's serial
      kernel) vs overlapped = max(M,C) (the double-buffer floor). With
      --reg-budget, gates the overlap on the compute lane keeping its ILP after
      the --spend registers: a smem double-buffer (spend 0) earns the floor, a
      register-prefetch (spend > headroom) falls back to serial. e.g. FATTN deep:
      --mem-cycles 1413 --compute-cycles 1945 -> serial 3358, overlapped 1945.

  gate --value V --anchor M (--tol T | --tol-rel PCT) --fit-override FIT [--units U]
  gate --value V --registry FILE --anchor-id ID --at k=v,... [--fit-override FIT]
  gate --compose VERDICT,VERDICT [composite anchor flags as above]
      projection-validity ARBITER (plan/0144/spec/projection-validity.md; contract
      call/0036): judge a claim against its measured anchor + domain and emit
      CERTIFIED (exit 0) | PROVISIONAL (exit 3 -- build, bench confirms, NOT a
      terminal pass) | REFUSED (exit 2, the bench gates); operator error exits 4.
      `anchored` = the model's value AT the anchor (--at-anchor, default V)
      reproduces M±T. In registry mode the domain FIT is COMPUTED from the row
      (an unknown or missing axis is out-of-domain); --fit-override substitutes
      it and tags the verdict `[fit-override]`. --compose runs the A4 cap: the
      composite keeps Gate only if it reproduces its OWN anchor. Makes an
      unvalidated projection un-launderable into a pass.

kernel PAT is the subset the tools use: literals, '.', '\\d', with '*'/'+'.
Binaries are disassembled via cuobjdump (override with CUOBJDUMP); .sass
files are read as cached disassembly."

/-- The flags of a command that take the next word as their value. -/
def valueFlags (command : Str) : List Str :=
  if command = "project" then
    ["table", "kernel", "warps", "mem-class", "dram-budget", "regs-per-thread", "smem-block",
      "block-threads"]
  else if command = "census" then ["kernel"]
  else if command = "check-sass" then
    ["min-primary", "l0-bytes", "staging-budget", "tolerance-pp"]
  else if command = "mk-table" then ["priors", "na"]
  else if command = "ptxas" then ["block-threads", "grid-blocks", "instances", "block-smem"]
  else if command = "latency" then
    ["chains", "depth", "cyc-per-op", "op-latency", "reg-budget", "base-regs", "regs-per-chain",
      "spend"]
  else if command = "compose" then
    ["mem-cycles", "compute-cycles", "chains", "depth", "cyc-per-op", "op-latency", "reg-budget",
      "base-regs", "regs-per-chain", "spend"]
  else if command = "gate" then Gate.gateFlags
  else []

def u32Str (n : UInt32) : Str := natStr n.toNat

/-! ## Projection -/

def parseMemClass (s : Str) : Option MemClass :=
  if s = "none" then some .none else
  if s = "dram" then some .dram else
  if s = "l1" then some .l1 else none

/-- The concurrency of a work unit over the ceiling. -/
def warpsText (s : Substrate) (w : WorkUnit) : Exec Str Str := do
  let pct ← occupancyPct s w
  pure (u32Str (concurrency s w) ++ "/" ++ u32Str s.concurrencyCeiling ++ " warps (" ++
    natStr pct ++ "%)")

/-- The line of the resource flags. -/
def printOccupancy (args : Args) : Command Unit := do
  let registers ← lift (args.number parseU32 "regs-per-thread" 0)
  let smem ← lift (args.number parseU32 "smem-block" 0)
  let blockThreads ← lift (args.number parseU32 "block-threads" 32)
  let w ← lift (workUnit ⟨[], [], registers, 0, smem, [], 0, 0, 0, 0⟩ blockThreads)
  let text ← lift (warpsText tu102Sm w)
  println ("occupancy: " ++ text)

/-- What `project` takes from its words. -/
structure ProjectArgs where
  censusPath : Str
  tablePath : Str
  kernel : Pattern
  warps : F64
  memClass : MemClass
  dramBudget : F64

def projectArgs (args : Args) : Exec Str ProjectArgs := do
  let censusPath ← args.only "project: exactly one census CSV expected"
  let tablePath ← Exec.ofOption "project: --table is required" (args.value "table")
  let kernel ← Pattern.tryNew ((args.value "kernel").getD ".*")
  let warps ← args.number F64.parse "warps" (.fin 8)
  let memClass ← Exec.ofOption "--mem-class: none, dram, or l1"
    (parseMemClass ((args.value "mem-class").getD "none"))
  let dramBudget ← args.number F64.parse "dram-budget" (.fin 5.82)
  pure ⟨censusPath, tablePath, kernel, warps, memClass, dramBudget⟩

def runProject (rest : List Str) : Command ℕ := do
  let args ← lift (Args.parse (valueFlags "project") rest)
  let a ← lift (projectArgs args)
  let table ← read a.tablePath
  let rates ← lift (Rates.parse table)
  let text ← read a.censusPath
  let census ← lift (fromCensusCsv text a.kernel)
  if census.items = [] then
    eprintln "no ops matched"
    pure 1
  else do
    let r ← lift (Nvidia.project census a.warps a.memClass rates a.dramBudget)
    let text ← lift (report r)
    print text
    if args.has "regs-per-thread" then printOccupancy args
    pure 0

/-! ## Census -/

/-- Drops are reported on the error stream, the census alone on the other. -/
def warnDrops (drops : ℕ) : Command Unit :=
  if 0 < drops then
    eprintln ("census: " ++ natStr drops ++ " uniform-datapath predicated instructions dropped " ++
      "(@UP*: refused by the scanner, costed at zero)")
  else pure ()

def runCensus (rest : List Str) : Command ℕ := do
  let args ← lift (Args.parse (valueFlags "census") rest)
  let path ← lift (args.only "census: exactly one binary or .sass expected")
  let kernel ← lift (Pattern.tryNew ((args.value "kernel").getD ".*"))
  let sass ← files (·.sassText path)
  let drops ← lift (uniformPredicatedDrops sass)
  warnDrops drops
  let counts ← lift (censusPerKernel sass kernel (args.has "full"))
  if counts = [] then
    eprintln ("no kernels matched '" ++ (args.value "kernel").getD ".*" ++ "'")
    pure 1
  else do
    let csv ← lift (censusCsv counts)
    match (args.value "o").filter (· ≠ lit "-") with
    | some out => write out csv
    | none => print csv
    pure 0

/-! ## The loop gates -/

/-- The exemptions are listed by the name of the binary. -/
def benchName (name : Str) : Str :=
  match name.dropSuffix? (".sass" : Str) with
  | some stem => stem ++ ".bin"
  | none => name

def gateOpts (args : Args) : Exec Str GateOpts := do
  let minPrimary ← args.number parseU32 "min-primary" 64
  let l0Bytes ← args.number parseU64 "l0-bytes" 8192
  let stagingBudget ← args.number parseU64 "staging-budget" 6
  pure ⟨minPrimary.toNat, l0Bytes, stagingBudget⟩

def runCensusMatch (args : Args) : Command ℕ :=
  match args.positional with
  | [a, b] => do
      let tol ← lift (args.number F64.parse "tolerance-pp" (.fin 10))
      let (out, exit) ← files (censusMatch · a b tol)
      print out
      pure exit
  | _ => fail "check-sass --census-match: two BIN:PAT specs expected"

def runCheckSass (rest : List Str) : Command ℕ := do
  let args ← lift (Args.parse (valueFlags "check-sass") rest)
  if args.has "census-match" then runCensusMatch args else do
    let path ← lift (args.only "check-sass: exactly one binary or .sass expected")
    let opts ← lift (gateOpts args)
    let name ← lift (Exec.ofOption "check-sass: bad path" (fileName path))
    let sass ← files (·.sassText path)
    let (out, exit) ← lift (check (benchName name) sass opts)
    print out
    pure exit

/-! ## Tables -/

def readResult (dir : Str) (results : List (Str × Str)) (entry : Except Str Str) :
    Command (List (Str × Str)) := do
  let name ← lift (World.report entry)
  if lit ".csv" <:+ name then do
    let content ← read (joinPath dir name)
    pure (results ++ [(name, content)])
  else pure results

/-- The CSV files of a directory, by name. -/
def readResults (dir : Str) (entries : List (Except Str Str)) : Command (List (Str × Str)) :=
  entries.foldlM (readResult dir) []

def runMkTable (rest : List Str) : Command ℕ := do
  let args ← lift (Args.parse (valueFlags "mk-table") rest)
  let dir ← lift (args.only "mk-table: exactly one results directory expected")
  let priorsPath ← lift (Exec.ofOption "mk-table: --priors is required" (args.value "priors"))
  let priors ← read priorsPath
  let na ← (args.value "na").mapM read
  let out ← lift (Exec.ofOption "mk-table: -o is required" (args.value "o"))
  let entries ← files fun w ↦ World.report (w.entries dir)
  let results ← readResults dir entries
  let (csv, rows) ← lift (mkTable results priors na)
  write out csv
  println (out ++ ": " ++ natStr rows ++ " rows")
  pure 0

def runVerifyProjection (rest : List Str) : Command ℕ := do
  let args ← lift (Args.parse (valueFlags "verify-projection") rest)
  let root ← lift (args.only "verify-projection: exactly one root directory expected")
  let (out, exit) ← files (verifyProjection · root)
  print out
  pure exit

/-! ## Resource usage -/

/-- An optional number of `ptxas`. -/
def launchNumber (args : Args) (name : Str) : Exec Str (Option UInt32) :=
  (args.value name).mapM fun v ↦ Exec.ofOption ("--" ++ name ++ ": bad value") (parseU32 v)

/-- The multiprocessors of a TU102. -/
def TU102_SMS : UInt32 := 72

structure Launch where
  blockThreads : Option UInt32
  gridBlocks : Option UInt32
  instances : UInt32
  blockSmem : Option UInt32

def launch (args : Args) : Exec Str Launch := do
  let blockThreads ← launchNumber args "block-threads"
  let gridBlocks ← launchNumber args "grid-blocks"
  let instances ← args.number parseU32 "instances" TU102_SMS
  let blockSmem ← launchNumber args "block-smem"
  if gridBlocks.isSome && blockThreads.isNone then
    Exec.err "ptxas: --grid-blocks needs --block-threads"
  else pure ⟨blockThreads, gridBlocks, instances, blockSmem⟩

def usageLine (k : KernelUsage) : Str :=
  k.name ++ ": " ++ u32Str k.registers ++ " regs, " ++ u32Str k.smemBytes ++ " B smem, " ++
    u32Str k.barriers ++ " barriers, spills " ++ u32Str k.spillStores ++ "/" ++
    u32Str k.spillLoads

/-- Whether the cooperative grid of a kernel fits, after its part of the line. -/
def printGrid (l : Launch) (k : KernelUsage) (blockThreads grid : UInt32) : Command Bool := do
  let b ← lift (block k blockThreads l.blockSmem)
  let fits := cooperativeFits tu102Sm b grid l.instances
  print (", " ++ u32Str (blocksPerInstance tu102Sm b) ++ " blocks/instance, cooperative grid " ++
    u32Str grid ++ " on " ++ u32Str l.instances ++ " instances: " ++
    (if fits then "fits" else "DEADLOCK" : String))
  pure fits

/-- The part of a kernel's line that needs a launch.  Without a grid nothing
can fail to fit. -/
def printLaunch (l : Launch) (k : KernelUsage) : Command Bool :=
  match l.blockThreads with
  | none => pure true
  | some blockThreads => do
      let w ← lift (workUnit k blockThreads)
      let text ← lift (warpsText tu102Sm w)
      print (", occupancy " ++ text ++ " at " ++ u32Str blockThreads ++ " threads/block")
      match l.gridBlocks with
      | none => pure true
      | some grid => printGrid l k blockThreads grid

/-- One line for a kernel. -/
def printUsage (l : Launch) (k : KernelUsage) : Command Bool := do
  print (usageLine k)
  let fits ← printLaunch l k
  println []
  pure fits

def runPtxas (rest : List Str) : Command ℕ := do
  let args ← lift (Args.parse (valueFlags "ptxas") rest)
  let path ← lift (args.only "ptxas: exactly one ptxas -v output file expected")
  let text ← read path
  let kernels := parsePtxasV text
  if kernels = [] then
    eprintln "no kernels found"
    pure 1
  else do
    let l ← lift (launch args)
    let fits ← kernels.mapM (printUsage l)
    pure (if fits.all id then 0 else 1)

def metricLine (r : MetricRow) : Str :=
  "[" ++ r.launch ++ "] " ++ r.kernel ++ ": " ++ r.metric ++ " = " ++ r.value ++ " " ++ r.unit

def achievedLine (a : Achieved) : Str :=
  "achieved occupancy [" ++ a.launch ++ "] " ++ a.kernel ++ ": " ++ a.pct.display ++ "%"

def runNcu (rest : List Str) : Command ℕ := do
  let args ← lift (Args.parse (valueFlags "ncu") rest)
  let path ← lift (args.only "ncu: exactly one ncu --csv export expected")
  let text ← read path
  let rows ← lift (parseNcuCsv text)
  rows.forM fun r ↦ println (metricLine r)
  (achievedOccupancy rows).forM fun a ↦ println (achievedLine a)
  pure 0

/-! ## Latency and composition -/

def opTemplate (args : Args) : Exec Str OpTemplate := do
  let chains ← args.number parseU32 "chains" 1
  let depth ← args.number parseU32 "depth" 1
  let cycPerOp ← args.number parseU32 "cyc-per-op" 1
  let opLatency ← args.number parseU32 "op-latency" 1
  pure ⟨chains, depth, cycPerOp, opLatency⟩

def boundText : Bottleneck → Str
  | .latency => "latency-bound (RecMII, under-parallelized)"
  | .pipe _ => "throughput-bound (ResMII)"
  | .issueCap => "issue-bound"
  | .memory => "memory-bound"

def miiLines (t : OpTemplate) : Str :=
  "MII = max(ResMII " ++ u32Str (U32.satMul (U32.satMul t.chains t.depth) t.cycPerOp) ++
    ", RecMII " ++ u32Str (U32.satMul t.depth t.opLatency) ++ ") = " ++
    u32Str t.cycles.cycles ++ " cycles [" ++ boundText t.cycles.bottleneck ++ "]\n" ++
    "utilization " ++ u32Str t.utilizationPct ++ "%; hidden at chains >= L/R = " ++
    u32Str t.chainsToHide ++ " (have " ++ u32Str t.chains ++ ")\n"

def registerLines (t : OpTemplate) (budget base per : UInt32) : Str :=
  "registers: budget " ++ u32Str budget ++ " - base " ++ u32Str base ++ " @ " ++ u32Str per ++
    "/chain -> sustains " ++ u32Str (achievableChains budget base per) ++
    " chains (requested " ++ u32Str t.chains ++ ")\n" ++
    "under registers: utilization " ++ u32Str (t.utilizationUnderRegisters budget base per) ++
    "%\n"

def spendLine (t : OpTemplate) (budget base per spend : UInt32) : Str :=
  "overlap spend " ++ u32Str spend ++ ": sustains " ++
    u32Str (achievableChains budget (U32.satAdd base spend) per) ++ " chains -> " ++
    (if t.overlapKeepsHidden budget base per spend then "STAYS HIDDEN"
      else "RE-EXPOSES LATENCY" : String) ++
    " (hide threshold " ++ u32Str t.chainsToHide ++ ")"

def runLatency (rest : List Str) : Command ℕ := do
  let args ← lift (Args.parse (valueFlags "latency") rest)
  let t ← lift (opTemplate args)
  print (miiLines t)
  let budget ← lift (args.number parseU32 "reg-budget" 0)
  if 0 < budget then
    let base ← lift (args.number parseU32 "base-regs" 0)
    let per ← lift (args.number parseU32 "regs-per-chain" 1)
    let spend ← lift (args.number parseU32 "spend" 0)
    print (registerLines t budget base per)
    if 0 < spend then println (spendLine t budget base per spend)
  pure 0

/-- The memory phase and the compute phase of an op. -/
def phases (mem cmp : UInt32) : OpComposition := ⟨[⟨mem, .memory⟩, ⟨cmp, .compute⟩]⟩

def phaseLines (mem cmp : UInt32) : Str :=
  "serial = mem " ++ u32Str mem ++ " + compute " ++ u32Str cmp ++ " = " ++
    u32Str (phases mem cmp).serialCycles ++ " cycles (no overlap; today's kernel)\n" ++
    "overlapped = max(mem " ++ u32Str mem ++ ", compute " ++ u32Str cmp ++ ") = " ++
    u32Str (phases mem cmp).overlappedCycles ++ " cycles (perfect double-buffer floor)\n"

def registerGateLine (comp : OpComposition) (spend : UInt32) (creditable : Bool) : Str :=
  "register gate: overlap spend " ++ u32Str spend ++ " -> compute lane " ++
    (if creditable then "STAYS HIDDEN (creditable)"
      else "RE-EXPOSES (not creditable)" : String) ++
    " -> projection " ++ u32Str (comp.overlappedIf creditable) ++ " cycles"

def runCompose (rest : List Str) : Command ℕ := do
  let args ← lift (Args.parse (valueFlags "compose") rest)
  let mem ← lift (args.number parseU32 "mem-cycles" 0)
  let cmp ← lift (args.number parseU32 "compute-cycles" 0)
  print (phaseLines mem cmp)
  let budget ← lift (args.number parseU32 "reg-budget" 0)
  if 0 < budget then
    let t ← lift (opTemplate args)
    let base ← lift (args.number parseU32 "base-regs" 0)
    let per ← lift (args.number parseU32 "regs-per-chain" 1)
    let spend ← lift (args.number parseU32 "spend" 0)
    let creditable := t.overlapKeepsHidden budget base per spend
    println (registerGateLine (phases mem cmp) spend creditable)
  pure 0

/-! ## The arbiter -/

def runGate (rest : List Str) : Command ℕ := do
  let out ← files fun w ↦ Gate.run w.read rest
  out.stdout.forM println
  out.stderr.forM eprintln
  pure out.code

/-! ## Telemetry -/

def noClock (path : Str) : Str :=
  path ++ ": no derivable run clock (no record with both counters live, or a consensus outside " ++
    "the physical sanity band) -- cycle<->ns conversions refused, not defaulted (call/0038)"

def warnSkipped (skipped : ℕ) : Command Unit :=
  if 0 < skipped then
    eprintln ("telemetry: " ++ natStr skipped ++
      " malformed rows skipped (truncated/corrupt input)")
  else pure ()

/-- The summary of the records of a file. -/
def printSummary (path : Str) (recs : List TeleRecord) : Command Unit := do
  let derived ← lift (TeleCtx.derive recs tu102PeakDramGbps)
  let ctx ← lift (Exec.ofOption (noClock path) derived)
  let totals ← lift (totalsLine ctx recs)
  print totals
  print (topLines ctx recs)
  print (overlapLine recs)

/-- What is said of the rows of a file. -/
def reportRows (args : Args) (path : Str) (recs : List TeleRecord) (skipped : ℕ) : Command ℕ := do
  warnSkipped skipped
  if recs = [] then fail (path ++ ": no telemetry records parsed") else do
    printSummary path recs
    -- a lossy parse is a failed run under `--strict`
    pure (if args.has "strict" && decide (0 < skipped) then 1 else 0)

def runTelemetry (rest : List Str) : Command ℕ := do
  let args ← lift (Args.parse (valueFlags "telemetry") rest)
  let path ← lift (Exec.ofOption "telemetry: need a .tele file path" args.positional.head?)
  let text ← read path
  let (recs, skipped) := parseTeleCounted text
  reportRows args path recs skipped

/-! ## One run -/

def runCommand (command : Str) (rest : List Str) : Command ℕ :=
  if command = "project" then runProject rest else
  if command = "census" then runCensus rest else
  if command = "check-sass" then runCheckSass rest else
  if command = "mk-table" then runMkTable rest else
  if command = "verify-projection" then runVerifyProjection rest else
  if command = "ptxas" then runPtxas rest else
  if command = "ncu" then runNcu rest else
  if command = "latency" then runLatency rest else
  if command = "compose" then runCompose rest else
  if command = "gate" then runGate rest else
  if command = "telemetry" then runTelemetry rest else
  if command = "--help" ∨ command = "-h" ∨ command = "help" then do
    println usage
    pure 0
  else fail ("unknown command " ++ debug command ++ "\n" ++ usage)

def run : List Str → Command ℕ
  | [] => do
      eprintln usage
      pure 2
  | command :: rest => runCommand command rest

/-- What a run leaves behind. -/
structure Outcome where
  console : Console
  code : ℕ

/-- `main`: a reported error exits 2, a panic 101, and the code of a run is cut
to a byte. -/
def invoke (w : World) (argv : List Str) : Outcome :=
  match (run argv).exec (.start w) with
  | (.ok code, c) => ⟨c, code % 256⟩
  | (.error (.err msg), c) =>
      ⟨{ c with stderr := c.stderr ++ ("calx-mill: " ++ msg ++ lit "\n") }, 2⟩
  | (.error (.panic msg), c) => ⟨{ c with stderr := c.stderr ++ (msg ++ lit "\n") }, 101⟩

end CalxMill.Cli
