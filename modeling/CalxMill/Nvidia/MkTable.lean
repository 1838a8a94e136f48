import CalxMill.Lib.Partition
import CalxMill.Nvidia.Csv
import CalxMill.Nvidia.PyFmt
import Mathlib.Data.List.MinMax
import Mathlib.Data.List.Sort
import Mathlib.Order.Lex

/-!
# The ops table

The measurement files and the priors are folded into the published table.
The measurements of one row identifier are split into groups, a group is
reduced to its run values, and each group becomes one row whose flag is the
outcome of the verification rule.  `Published` keeps a row together with the
group, the values and the prior that it came from.
-/

namespace CalxMill.Nvidia

open Lib Rust

/-- The prefixes of a row identifier and their instruction. -/
def INSTRUCTION : List (Str × Str) :=
  [("alu.ffma", "FFMA"), ("alu.fadd", "FADD"), ("alu.fmul", "FMUL"),
    ("alu.iadd3_lop3", "IADD3+LOP3"), ("alu.iadd3", "IADD3"), ("alu.imad", "IMAD"),
    ("alu.lop3", "LOP3"), ("alu.shf", "SHF"), ("alu.sel", "SEL"), ("alu.fsel", "SEL"),
    ("alu.isetp_sel", "ISETP+SEL"), ("alu.isetp", "ISETP"), ("alu.fsetp_sel", "FSETP+SEL"),
    ("alu.fsetp", "FSETP"), ("alu.popc", "POPC"), ("alu.flo", "FLO"), ("alu.prmt", "PRMT"),
    ("alu.idp4a", "IDP.4A"), ("alu.hfma2", "HFMA2"), ("alu.dadd", "DADD"),
    ("alu.dfma", "DFMA"), ("alu.idiv", "(IDIV sequence)")]

/-- The longest matching prefix wins. -/
def instructionFor (rowId : Str) : Str :=
  let keys := INSTRUCTION.insertionSort fun a b ↦ b.1.length ≤ a.1.length
  ((keys.find? fun k ↦ k.1 <+: rowId).map (·.2)).getD []

/-- The suffix of a sweep variant: `w8_s8` has `_s8`, `w8` the empty one. -/
def sweepBase : Str → Option Str
  | 'w' :: d :: rest =>
      if d.isDigit then some (rest.dropWhile fun c ↦ c = 'w' || c.isDigit) else none
  | _ => none

/-- The sorted midpoint, the mean of the middle two on even length. -/
def median (vals : List F64) : Exec Str F64 := do
  if 2 ≤ vals.length ∧ .nan ∈ vals then Exec.panic "values are never NaN"
  let v := vals.insertionSort (· ≤ ·)
  let n := v.length
  if n % 2 = 1 then Exec.expect "index out of bounds" v[n / 2]?
  else if n = 0 then Exec.panic "attempt to subtract with overflow"
  else
    let a ← Exec.expect "index out of bounds" v[n / 2 - 1]?
    let b ← Exec.expect "index out of bounds" v[n / 2]?
    pure ((a + b) / .fin 2)

structure Meas where
  runId : Str
  gpuIndex : Str
  rowId : Str
  kind : Str
  variant : Str
  value : Str
  unit : Str
  cvPct : Str
  benchSrc : Str
  gitSha : Str
  notes : Str
  family : Str
  deriving DecidableEq

def fval (s : Str) : Exec Str F64 := Exec.expect ("not a number: " ++ debug s) (F64.parse s)

structure Prior where
  priorValue : Str
  priorSrc : Str

inductive GroupKey where
  | sweep (suffix : Str)
  | plain (variant : Str)
  deriving DecidableEq

def GroupKey.sortKey : GroupKey → Str
  | sweep s => "('sweep', '" ++ s ++ "')"
  | plain v => v

/-! ## Reading the inputs -/

/-- The last row of an identifier wins. -/
def addPrior (pId pVal pSrc : ℕ) (priors : List (Str × Prior)) (row : List Str) :
    Exec Str (List (Str × Prior)) := do
  let value ← Table.cell row pVal
  let src ← Table.cell row pSrc
  let id ← Table.cell row pId
  pure (Assoc.alter (fun _ ↦ ⟨value, src⟩) id priors)

def readPriors (priorsCsv : Str) : Exec Str (List (Str × Prior)) := do
  let pt := Table.parse priorsCsv
  let pId ← pt.col "row_id"
  let pVal ← pt.col "prior_value"
  let pSrc ← pt.col "prior_src"
  pt.rows.foldlM (addPrior pId pVal pSrc) []

/-- The measurements of one file. -/
def readMeas (fname content : Str) : Exec Str (List Meas) := do
  let family := fname.take (fname.length - 4)
  let t := Table.parse content
  let runId ← t.col "run_id"
  let gpu ← t.col "gpu_index"
  let rowId ← t.col "row_id"
  let kind ← t.col "kind"
  let variant ← t.col "variant"
  let value ← t.col "value"
  let unit ← t.col "unit"
  let cv ← t.col "cv_pct"
  let src ← t.col "bench_src"
  let sha ← t.col "git_sha"
  let notes ← t.col "notes"
  t.rows.mapM fun row ↦ do
    pure {
      runId := ← Table.cell row runId
      gpuIndex := ← Table.cell row gpu
      rowId := ← Table.cell row rowId
      kind := ← Table.cell row kind
      variant := ← Table.cell row variant
      value := ← Table.cell row value
      unit := ← Table.cell row unit
      cvPct := ← Table.cell row cv
      benchSrc := ← Table.cell row src
      gitSha := ← Table.cell row sha
      notes := ← Table.cell row notes
      family := family }

/-- `proj.csv` is a diagnostic family and `runs.csv` an index: neither has
table rows. -/
def isResults (fname : Str) : Bool :=
  fname ≠ "runs.csv" && decide (lit ".csv" <:+ fname) && fname ≠ "proj.csv"

/-- The measurements by row identifier, in first-seen order across the files
sorted by name. -/
def measurements (results : List (Str × Str)) : Exec Str (List (Str × List Meas)) := do
  let files := (results.insertionSort fun a b ↦ a.1 ≤ b.1).filter fun f ↦ isResults f.1
  let read ← files.mapM fun f ↦ readMeas f.1 f.2
  pure (Assoc.groupOn Meas.rowId read.flatten)

def isPipe (rowId : Str) : Bool := decide (lit ".pipe" <:+ rowId)

/-- The label in the note of a contention probe, under the probed row. -/
def pipeLabel (e : Str × List Meas) : Exec Str (Option (Str × Str)) := do
  let first ← Exec.expect "index out of bounds" e.2.head?
  pure <| (first.notes.dropPrefix? (lit "pipe=")).map fun rest ↦
    let label := rest.takeWhile (· ≠ ';')
    (e.1.take (e.1.length - 5), ((splitOnce " (" label).map (·.1)).getD label)

/-! ## Groups -/

structure Group where
  rowId : Str
  kind : Str
  unit : Str
  family : Str
  benchSrc : Str
  key : GroupKey
  members : List Meas
  deriving DecidableEq

/-- Throughput and bandwidth sweeps are grouped by suffix; every other variant
is its own group. -/
def splitRows (kind : Str) (rows : List Meas) : List (GroupKey × List Meas) :=
  let groups :=
    if kind = "recip_tput" ∨ kind = "bandwidth" then
      let sweeps := rows.filter fun m ↦ (sweepBase m.variant).isSome
      let standalone := rows.filter fun m ↦ (sweepBase m.variant).isNone
      (Assoc.groupOn (fun m ↦ (sweepBase m.variant).getD []) sweeps).map
          (fun e ↦ (GroupKey.sweep e.1, e.2)) ++
        (Assoc.groupOn Meas.variant standalone).map fun e ↦ (GroupKey.plain e.1, e.2)
    else (Assoc.groupOn Meas.variant rows).map fun e ↦ (GroupKey.plain e.1, e.2)
  groups.insertionSort fun a b ↦ a.1.sortKey ≤ b.1.sortKey

def rowGroups (measurements : List (Str × List Meas)) (rowId : Str) : Exec Str (List Group) := do
  let rows ← Exec.expect "key exists" (measurements.lookup rowId)
  let first ← Exec.expect "index out of bounds" rows.head?
  pure <| (splitRows first.kind rows).map fun e ↦
    { rowId, kind := first.kind, unit := first.unit, family := first.family,
      benchSrc := first.benchSrc, key := e.1, members := e.2 }

/-- The values of a group that the verification rule reads. -/
structure Sample (K : Type*) where
  runVals : List K
  gpuVals : List (Str × List K)
  cvs : List K
  variant : Str
  deriving DecidableEq

def Sample.map {K L : Type*} (f : K → L) (s : Sample K) : Sample L :=
  ⟨s.runVals.map f, s.gpuVals.map fun e ↦ (e.1, e.2.map f), s.cvs.map f, s.variant⟩

/-- The values by GPU. -/
def perGpu (vals : List (Str × F64)) : List (Str × List F64) :=
  (Assoc.groupOn Prod.fst vals).map fun e ↦ (e.1, e.2.map Prod.snd)

def higher (peak m : Meas) : Exec Str Meas := do
  let value ← fval m.value
  let peakValue ← fval peak.value
  pure (if peakValue < value then m else peak)

structure Peak where
  gpu : Str
  variant : Str
  value : F64
  cv : F64

/-- The peak of one invocation's sweep, the first on ties. -/
def sweepPeak (e : (Str × Str) × List Meas) : Exec Str Peak := do
  let first ← Exec.expect "index out of bounds" e.2.head?
  let p ← e.2.tail.foldlM higher first
  let value ← fval p.value
  let cv ← fval p.cvPct
  pure ⟨e.1.2, p.variant, value, cv⟩

def sample (g : Group) : Exec Str (Sample F64) :=
  match g.key with
  | .sweep _ => do
      let peaks ← (Assoc.groupOn (fun m ↦ (m.runId, m.gpuIndex)) g.members).mapM sweepPeak
      let counted := (Assoc.groupOn Peak.variant peaks).map fun e ↦ (e.1, e.2.length)
      let best ← Exec.expect "index out of bounds" (counted.argmax (·.2))
      pure ⟨peaks.map Peak.value, perGpu (peaks.map fun p ↦ (p.gpu, p.value)),
        peaks.map Peak.cv, best.1⟩
  | .plain vk => do
      let values ← g.members.mapM fun m ↦ fval m.value
      let cvs ← g.members.mapM fun m ↦ fval m.cvPct
      pure ⟨values, perGpu ((g.members.map Meas.gpuIndex).zip values), cvs, vk⟩

/-! ## The verification rule -/

inductive RowFlag where
  | ok
  | unverified
  | deviates
  | absent
  deriving DecidableEq

def RowFlag.text : RowFlag → Str
  | ok => "ok"
  | unverified => "UNVERIFIED"
  | deviates => "DEV>25%"
  | absent => "NA_SM75"

/-- Cycle-domain rows are deterministic, wall-clock bandwidth varies with the
memory, and host-domain time carries scheduler jitter. -/
def noiseFloor (kind unit : Str) : ℚ :=
  if kind = "time_us" then 5 else
  if kind = "bandwidth" ∧ unit = "GB/s" then 0.5 else 0.1

def cvMedian (cvs : List F64) : Exec Str F64 := if cvs = [] then pure 0 else median cvs

/-- A difference in percent of the signed median; zero for a zero median. -/
def percent (d value : F64) : F64 := if value = 0 then 0 else .fin 100 * d / value

/-- What the between-run rule has against the values. -/
def betweenRuns (s : Sample F64) (value withinCv : F64) (floor : ℚ) : Option Str :=
  if s.runVals.length < 2 then some (lit "between-run rule unmet (single invocation)")
  else
    let hi := s.runVals.foldl ExtNum.fmax (.inf true)
    let lo := s.runVals.foldl ExtNum.fmin (.inf false)
    let spread := percent (hi - lo) value
    if withinCv.fmax (.fin floor) < spread then
      some ("between-run spread " ++ F64.fixed 2 spread ++ "% exceeds within-run cv " ++
        F64.fixed 2 withinCv ++ "%")
    else none

/-- What the comparison of the first two GPUs has against the values. -/
def betweenGpus (s : Sample F64) (value withinCv : F64) : Exec Str (Option Str) := do
  if s.gpuVals.length < 2 then pure none
  else
    let meds ← s.gpuVals.mapM fun e ↦ median e.2
    let m₀ ← Exec.expect "index out of bounds" meds[0]?
    let m₁ ← Exec.expect "index out of bounds" meds[1]?
    let gpuDiff := percent (m₀ - m₁).abs value
    pure <|
      if (.fin 2 * withinCv).fmax (.fin 0.3) < gpuDiff then
        some (lit "GPU0-vs-GPU1 medians differ " ++ F64.fixed 2 gpuDiff ++ "%")
      else none

/-- `<row_id>.<variant>` beats `<row_id>`, and a bare prior binds only the base
variants of a latency row. -/
def boundPrior (priors : List (Str × Prior)) (g : Group) (variant : Str) : Option Prior :=
  let withVariant := priors.lookup (g.rowId ++ '.' :: variant)
  let prior := withVariant.or (priors.lookup g.rowId)
  if prior.isSome ∧ variant ≠ [] ∧ withVariant.isNone ∧
      (g.kind = "latency_cycles" ∨ g.kind = "latency_ns") ∧
      variant ∉ ["", "l1hit", "broadcast", "conflict1", "derived"].map lit then
    none
  else prior

/-- The flag of a row: a note against the values, or a deviation above a
quarter of the prior. -/
def rowFlag (runs gpus : Option Str) (dev : Option F64) : RowFlag :=
  if runs.isSome ∨ gpus.isSome then .unverified
  else if dev.any fun d ↦ .fin 25 < d.abs then .deviates
  else .ok

def deviation (value : F64) (p : Prior) : Exec Str F64 := do
  let pv ← fval p.priorValue
  pure (.fin 100 * (value - pv) / pv)

/-! ## Rows -/

structure OpsRow where
  rowId : Str
  family : Str
  instruction : Str
  variant : Str
  kind : Str
  value : Str
  unit : Str
  cvPct : Str
  pipe : Str
  priorValue : Str
  priorSrc : Str
  deviationPct : Str
  flag : RowFlag
  measuredBy : Str
  clockMhz : Str
  notes : Str

def OpsRow.fields (r : OpsRow) : List Str :=
  [r.rowId, r.family, r.instruction, r.variant, r.kind, r.value, r.unit, r.cvPct, r.pipe,
    r.priorValue, r.priorSrc, r.deviationPct, r.flag.text, r.measuredBy, r.clockMhz, r.notes]

def header : List Str :=
  ["row_id", "class", "instruction", "variant", "kind", "value", "unit", "cv_pct", "pipe",
    "prior_value", "prior_src", "deviation_pct", "flag", "measured_by", "clock_mhz", "notes"]

structure Published where
  group : Group
  sample : Sample F64
  prior : Option Prior
  row : OpsRow

def distinct (l : List Str) : List Str := (l.insertionSort (· ≤ ·)).eraseReps

def publish (priors : List (Str × Prior)) (labels : List (Str × Str)) (g : Group) :
    Exec Str Published := do
  let s ← sample g
  let value ← median s.runVals
  let withinCv ← cvMedian s.cvs
  let runs := betweenRuns s value withinCv (noiseFloor g.kind g.unit)
  let gpus ← betweenGpus s value withinCv
  let prior := boundPrior priors g s.variant
  let dev ← prior.mapM (deviation value)
  -- the latest annotation wins
  let note := ((g.members.map Meas.notes).filter (· ≠ [])).getLast?
  let pipe := (labels.find? fun l ↦ l.1 ++ ['.'] <+: g.rowId).map (·.2)
  let row : OpsRow := {
    rowId := g.rowId
    family := g.family
    instruction := instructionFor g.rowId
    variant := s.variant
    kind := g.kind
    value := g6 value
    unit := g.unit
    cvPct := F64.fixed 3 withinCv
    pipe := pipe.getD []
    priorValue := (prior.map Prior.priorValue).getD []
    priorSrc := (prior.map Prior.priorSrc).getD []
    deviationPct := (dev.map (F64.fixed 1)).getD []
    flag := rowFlag runs gpus dev
    measuredBy := g.benchSrc ++ '@' :: join "+" (distinct (g.members.map Meas.gitSha)) ++
      lit " n_runs=" ++ natStr (distinct (g.members.map Meas.runId)).length
    clockMhz := "1455"
    notes := join "; " (note.toList ++ runs.toList ++ gpus.toList) }
  pure ⟨g, s, prior, row⟩

/-- An explicit-absence row: it has no value. -/
def absentRow (id inst src notes : ℕ) (row : List Str) : Exec Str OpsRow := do
  let rowId ← Table.cell row id
  let instruction ← Table.cell row inst
  let priorSrc ← Table.cell row src
  let note ← Table.cell row notes
  pure {
    rowId, family := rowId.takeWhile (· ≠ '.'), instruction, variant := [], kind := "na",
    value := [], unit := [], cvPct := [], pipe := [], priorValue := [], priorSrc,
    deviationPct := [], flag := .absent, measuredBy := "table/na_sm75.csv", clockMhz := [],
    notes := note }

def absentRows : Option Str → Exec Str (List OpsRow)
  | none => pure []
  | some na => do
      let t := Table.parse na
      let id ← t.col "row_id"
      let inst ← t.col "instruction"
      let src ← t.col "prior_src"
      let notes ← t.col "notes"
      t.rows.mapM (absentRow id inst src notes)

/-- The pipe labels of the contention probes and the groups of the table. -/
def tableGroups (results : List (Str × Str)) :
    Exec Str (List (Str × Str) × List Group) := do
  let measured ← measurements results
  let (probes, body) := measured.partition fun e ↦ isPipe e.1
  let labels ← probes.mapM pipeLabel
  let rowIds := (body.map (·.1)).insertionSort (· ≤ ·)
  let groups ← rowIds.mapM (rowGroups body)
  pure (labels.reduceOption, groups.flatten)

/-- The published rows and the absences. -/
def tableRows (results : List (Str × Str)) (priorsCsv : Str) (naCsv : Option Str) :
    Exec Str (List Published × List OpsRow) := do
  let priors ← readPriors priorsCsv
  let (labels, groups) ← tableGroups results
  let published ← groups.mapM (publish priors labels)
  let absent ← absentRows naCsv
  pure (published, absent)

def render (rows : List OpsRow) : Str := (header :: rows.map OpsRow.fields).foldl writeRecord []

def mkTable (results : List (Str × Str)) (priorsCsv : Str) (naCsv : Option Str) :
    Exec Str (Str × ℕ) := do
  let (published, absent) ← tableRows results priorsCsv naCsv
  let rows := published.map Published.row ++ absent
  pure (render rows, rows.length)

/-! ## What a run returns -/

theorem absentRows_eq_ok {naCsv : Option Str} {rows : List OpsRow}
    (h : absentRows naCsv = .ok rows) : ∀ r ∈ rows, r.flag = .absent ∧ r.value = [] := by
  intro r hr
  cases naCsv with
  | none =>
      obtain rfl : [] = rows := Except.ok.inj h
      cases hr
  | some na =>
      simp only [absentRows, Exec.bind_eq_ok] at h
      obtain ⟨id, -, inst, -, src, -, notes, -, h⟩ := h
      obtain ⟨row, -, hrow⟩ := Exec.mem_of_mapM_eq_ok h hr
      simp only [absentRow, Exec.bind_eq_ok, Exec.pure_eq_ok] at hrow
      obtain ⟨-, -, -, -, -, -, -, -, rfl⟩ := hrow
      exact ⟨rfl, rfl⟩

theorem publish_value {priors : List (Str × Prior)} {labels : List (Str × Str)} {g : Group}
    {p : Published} (h : publish priors labels g = .ok p) :
    p.row.rowId = g.rowId ∧ ∃ v, median p.sample.runVals = .ok v ∧ p.row.value = g6 v := by
  simp only [publish, Exec.bind_eq_ok, Exec.pure_eq_ok] at h
  obtain ⟨s, -, value, hvalue, cv, -, gpus, -, dev, -, rfl⟩ := h
  exact ⟨rfl, value, hvalue, rfl⟩

theorem publish_sample {priors : List (Str × Prior)} {labels : List (Str × Str)} {g : Group}
    {p : Published} (h : publish priors labels g = .ok p) :
    p.group = g ∧ sample g = .ok p.sample ∧ p.row.variant = p.sample.variant := by
  simp only [publish, Exec.bind_eq_ok, Exec.pure_eq_ok] at h
  obtain ⟨s, hs, value, -, cv, -, gpus, -, dev, -, rfl⟩ := h
  exact ⟨rfl, hs, rfl⟩

/-! ## Measured identifiers -/

/-- The sweep of a variant's suffix, or the variant by itself. -/
def groupKey (kind variant : Str) : GroupKey :=
  if kind = "recip_tput" ∨ kind = "bandwidth" then
    ((sweepBase variant).map GroupKey.sweep).getD (.plain variant)
  else .plain variant

theorem groupKey_plain {kind v w : Str} (h : groupKey kind v = .plain w) : v = w := by
  rw [groupKey] at h
  split at h
  · cases hsweep : sweepBase v with
    | none =>
        rw [hsweep] at h
        exact GroupKey.plain.inj h
    | some s =>
        rw [hsweep] at h
        cases h
  · exact GroupKey.plain.inj h

/-- The rows of an identifier are partitioned into the groups of their variants. -/
theorem partitions_splitRows (kind : Str) (rows : List Meas) :
    Assoc.Partitions (fun m ↦ groupKey kind m.variant) rows (splitRows kind rows) := by
  have hplain : Function.Injective GroupKey.plain := fun _ _ ↦ GroupKey.plain.inj
  have hsweep : Function.Injective GroupKey.sweep := fun _ _ ↦ GroupKey.sweep.inj
  rw [splitRows]
  apply Assoc.Partitions.perm _ (List.perm_insertionSort _ _)
  split
  next hkind =>
    have hstandalone : (rows.filter fun m ↦ !(sweepBase m.variant).isSome) =
        rows.filter fun m ↦ (sweepBase m.variant).isNone := by
      simp only [Option.not_isSome]
    refine Assoc.Partitions.append (p := fun m ↦ (sweepBase m.variant).isSome)
      (((Assoc.partitions_groupOn _ _).map hsweep).congr ?_)
      (hstandalone ▸ ((Assoc.partitions_groupOn _ _).map hplain).congr ?_) ?_
    · intro m hm
      obtain ⟨s, hs⟩ := Option.isSome_iff_exists.mp (List.mem_filter.mp hm).2
      simp [groupKey, hkind, hs]
    · intro m hm
      have hnone : sweepBase m.variant = none := by simpa using (List.mem_filter.mp hm).2
      simp [groupKey, hkind, hnone]
    · intro m _ m' _ hm hm'
      obtain ⟨s, hs⟩ := Option.isSome_iff_exists.mp hm
      rw [Option.isSome_eq_false_iff, Option.isNone_iff_eq_none] at hm'
      simp [groupKey, hkind, hs, hm']
  next hkind =>
    refine ((Assoc.partitions_groupOn _ _).map hplain).congr fun m _ ↦ ?_
    rw [groupKey, if_neg hkind]

theorem exists_mem_splitRows (kind : Str) {rows : List Meas} (h : rows ≠ []) :
    ∃ e, e ∈ splitRows kind rows := by
  obtain ⟨m, hm⟩ := List.exists_mem_of_ne_nil rows h
  obtain ⟨e, he, -⟩ := (partitions_splitRows kind rows).exists_mem hm
  exact ⟨e, he⟩

section Run

variable {results : List (Str × Str)} {priorsCsv : Str} {naCsv : Option Str}

theorem tableRows_eq_ok {published : List Published} {absent : List OpsRow}
    (h : tableRows results priorsCsv naCsv = .ok (published, absent)) :
    ∃ priors labels groups, readPriors priorsCsv = .ok priors ∧
      tableGroups results = .ok (labels, groups) ∧
      groups.mapM (publish priors labels) = .ok published ∧ absentRows naCsv = .ok absent := by
  simp only [tableRows, Exec.bind_eq_ok, Exec.pure_eq_ok] at h
  obtain ⟨priors, hpriors, ⟨labels, groups⟩, hgroups, published, hpublished, absent, habsent,
    heq⟩ := h
  obtain ⟨rfl, rfl⟩ := Prod.mk.inj heq
  exact ⟨priors, labels, groups, hpriors, hgroups, hpublished, habsent⟩

theorem mkTable_eq_ok {out : Str × ℕ} (h : mkTable results priorsCsv naCsv = .ok out) :
    ∃ published absent, tableRows results priorsCsv naCsv = .ok (published, absent) ∧
      out = (render (published.map Published.row ++ absent),
        (published.map Published.row ++ absent).length) := by
  simp only [mkTable, Exec.bind_eq_ok, Exec.pure_eq_ok] at h
  obtain ⟨⟨published, absent⟩, hrows, rfl⟩ := h
  exact ⟨published, absent, hrows, rfl⟩

/-- Every measured identifier that is no contention probe has a group. -/
theorem exists_mem_tableGroups {labels : List (Str × Str)} {groups : List Group}
    {measured : List (Str × List Meas)} {e : Str × List Meas}
    (h : tableGroups results = .ok (labels, groups)) (hmeasured : measurements results = .ok measured)
    (he : e ∈ measured) (hpipe : isPipe e.1 = false) : ∃ g ∈ groups, g.rowId = e.1 := by
  simp only [tableGroups, hmeasured, Exec.bind_eq_ok, Exec.pure_eq_ok] at h
  obtain ⟨measured', hm, labels', -, byRow, hgroups, heq⟩ := h
  obtain rfl := Except.ok.inj hm
  obtain ⟨-, rfl⟩ := Prod.mk.inj heq
  have hid : e.1 ∈ ((measured.partition fun e ↦ isPipe e.1).2.map (·.1)).insertionSort (· ≤ ·) := by
    rw [List.mem_insertionSort]
    apply List.mem_map_of_mem
    simp [List.partition_eq_filter_filter, he, hpipe]
  obtain ⟨gs, hgs, hrow⟩ := Exec.exists_of_mapM_eq_ok hgroups hid
  simp only [rowGroups, Exec.bind_eq_ok, Exec.expect_eq_ok, Exec.pure_eq_ok] at hrow
  obtain ⟨rows, -, first, hfirst, rfl⟩ := hrow
  have hne : rows ≠ [] := by
    rintro rfl
    cases hfirst
  obtain ⟨split, hsplit⟩ := exists_mem_splitRows first.kind hne
  exact ⟨_, List.mem_flatten.mpr ⟨_, hgs, List.mem_map_of_mem hsplit⟩, rfl⟩

end Run

end CalxMill.Nvidia
