import CalxMill.Lib.Rulings
import CalxMill.Nvidia.MkTable
import CalxMill.Nvidia.Projection
import CalxMill.Nvidia.Sass
import CalxMill.Rust.Fmt
import CalxMill.World

/-!
# The absolute projection gate

Every gate kernel of a measured tree is projected from the hot loop of its
disassembly and compared with the median of its measured cycles.  The
latency-bound demo is reported and never gated.
-/

namespace CalxMill.Nvidia

open Lib Rust

def TOL : F64 := .fin 0.20

structure KernelRow where
  rowId : Str
  binary : Str
  regex : Str
  memClass : MemClass
  warps : ℕ
  gated : Bool

def KERNELS : List KernelRow :=
  [⟨"proj.anchor.ffma", "bench/proj/anchors.bin", "ffma_anchor", .none, 8, true⟩,
   ⟨"proj.anchor.stream", "bench/proj/anchors.bin", "stream_anchor", .dram, 8, true⟩,
   ⟨"proj.anchor.smemtile", "bench/proj/anchors.bin", "smemtile_anchor", .none, 8, true⟩,
   ⟨"proj.anchor.capmix", "bench/proj/anchors.bin", "capmix_anchor", .none, 8, true⟩,
   ⟨"proj.anchor.latbound", "bench/proj/anchors.bin", "latbound_demo", .none, 1, false⟩,
   ⟨"proj.fa_mini.base", "bench/proj/fa_mini.bin", "fa_mini_kernelILi0", .l1, 8, true⟩,
   ⟨"proj.fa_mini.dp4a", "bench/proj/fa_mini.bin", "fa_mini_kernelILi1", .l1, 8, true⟩,
   ⟨"proj.fa_mini.staged", "bench/proj/fa_mini.bin", "fa_mini_kernelILi2", .l1, 8, true⟩]

def INJECT : List (Str × ℕ) :=
  [("base", 0), ("ffma", 8), ("ffma", 16), ("ffma", 24), ("idp4a", 8), ("idp4a", 16),
    ("idp4a", 24), ("lop3", 8), ("lop3", 16), ("lop3", 24), ("popc", 4), ("popc", 8),
    ("popc", 12)]

def opsym (op : Str) : Exec Str Str :=
  if op = "base" then pure "OpNONEELi0" else
  if op = "ffma" then pure "OpFFMAELi" else
  if op = "idp4a" then pure "OpIDP4A_S8ELi" else
  if op = "lop3" then pure "OpLOP3ELi" else
  if op = "popc" then pure "OpPOPCELi" else
  Exec.panic "internal error: entered unreachable code: unknown inject op"

def injectRow (e : Str × ℕ) : Exec Str KernelRow := do
  let sym ← opsym e.1
  let sym := if e.1 = "base" then sym else sym ++ natStr e.2 ++ "E"
  pure ⟨"proj.inject." ++ e.1 ++ ".k" ++ natStr e.2, "bench/proj/inject.bin",
    "inject_kernelINS_\\d*" ++ sym, .l1, 8, true⟩

/-- The kernels of the gate, in report order. -/
def gateKernels : Exec Str (List KernelRow) := do
  let inject ← INJECT.mapM injectRow
  pure (KERNELS ++ inject)

/-! ## The inputs -/

/-- The disassembly of a bench binary, or a cached one next to it.  Without
either the disassembler produces the error. -/
def benchSass (w : World) (root binary : Str) : Exec Str Str :=
  let bin := joinPath root binary
  let sass := withExtension bin "sass"
  if w.present bin then w.sassText bin else
  if w.present sass then w.sassText sass else w.sassText bin

def opsPath (root : Str) : Str := joinPath root "table/tu102_ops.csv"

def projPath (root : Str) : Str := joinPath root "data/results/t5820-2xrtx6000/proj.csv"

/-- The measured values by row identifier, in first-seen order. -/
abbrev ProjMeas := List (Str × List F64)

def addMeas (idCol valCol : ℕ) (meas : ProjMeas) (row : List Str) : Exec Str ProjMeas := do
  let value ← Table.cell row valCol
  let v ← Exec.ofOption ("bad value " ++ debug value) (F64.parse value)
  let id ← Table.cell row idCol
  pure (Assoc.alter (fun vals ↦ vals.getD [] ++ [v]) id meas)

def readProj (results : Str) : Exec Str ProjMeas := do
  let t := Table.parse results
  let idCol ← t.col "row_id"
  let valCol ← t.col "value"
  t.rows.foldlM (addMeas idCol valCol) []

/-- The median of the measured values of a row. -/
def measured (meas : ProjMeas) (rowId : Str) : Exec Str (Option F64) :=
  match meas.lookup rowId with
  | none => pure none
  | some vals => some <$> median vals

/-! ## The gate -/

def noMeasurement (k : KernelRow) : Str :=
  padRight 28 k.rowId ++ " NO MEASUREMENT — run the bench\n"

def noKernelMatch (k : KernelRow) : Str :=
  padRight 28 k.rowId ++ " NO KERNEL MATCH (" ++ k.regex ++ ")\n"

/-- The relative error of the projection is within the tolerance. -/
def withinTol (r : ProjectResult) (m : F64) : Bool := ((r.ppmCycles - m) / m).abs ≤ TOL

/-- The figures of a kernel, with the tag of its ruling. -/
def figures (k : KernelRow) (m : F64) (r : ProjectResult) (tag : Str) : Str :=
  let err := (r.ppmCycles - m) / m
  padRight 28 k.rowId ++ " " ++ padLeft 10 (m.fixed 1) ++ " " ++
    padLeft 10 (r.ppmCycles.fixed 1) ++ " " ++ padLeft 6 (F64.signed 1 (.fin 100 * err)) ++ "%  " ++
    padLeft 10 (r.addCycles.fixed 1) ++ " " ++ padRight 12 r.ppmBound ++ " " ++ tag ++ "\n"

def projLine (k : KernelRow) (m : F64) (r : ProjectResult) : Str :=
  figures k m r (if k.gated then (if withinTol r m then "PASS" else "FAIL") else "demo")

/-- Whether a kernel counts as a failure, and its line. -/
def ruleKernel (w : World) (root : Str) (rates : Rates) (meas : ProjMeas) (k : KernelRow) :
    Exec Str (Bool × Str) := do
  match ← measured meas k.rowId with
  | none => pure (k.gated, noMeasurement k)
  | some m => do
      let sass ← benchSass w root k.binary
      let (census, n) ← loopMix sass (Pattern.new k.regex)
      if n = 0 then pure (k.gated, noKernelMatch k)
      else do
        let r ← project census (ofU64 k.warps) k.memClass rates (.fin 5.82)
        pure (k.gated && !withinTol r m, projLine k m r)

/-- The report and the `u32` failure count so far. -/
structure ProjState where
  out : Str
  failures : ℕ

def verifyRow (w : World) (root : Str) (rates : Rates) (meas : ProjMeas) (st : ProjState)
    (k : KernelRow) : Exec Str ProjState := do
  let (failed, line) ← ruleKernel w root rates meas k
  let failures ← addU32 st.failures failed.toNat
  pure ⟨st.out ++ line, failures⟩

def verifyHeader : Str :=
  padRight 28 "kernel" ++ " " ++ padLeft 10 "measured" ++ " " ++ padLeft 10 "PPM" ++ " " ++
    padLeft 7 "err" ++ "  " ++ padLeft 10 "ADD" ++ " " ++ padRight 12 "bound" ++ "\n"

def verifyTrailer (failures : ℕ) : Str :=
  "\nverify_projection: " ++ natStr failures ++ " gate failure(s)\n"

/-- The report and the exit code over a tree. -/
def verifyProjection (w : World) (root : Str) : Exec Str (Str × ℕ) := do
  let table ← World.report (w.read (opsPath root))
  let rates ← Rates.parse table
  let results ← World.report (w.read (projPath root))
  let meas ← readProj results
  let kernels ← gateKernels
  let st ← kernels.foldlM (verifyRow w root rates meas) ⟨verifyHeader, 0⟩
  pure (st.out ++ verifyTrailer st.failures, if 0 < st.failures then 1 else 0)

/-! ## The median of the file -/

/-- The values in ascending order, and the one in the middle or the mean of the
two in the middle. -/
def IsMedian (vals : List F64) (m : F64) : Prop :=
  ∃ v : List F64, v.Perm vals ∧ v.Pairwise (· ≤ ·) ∧
    ((vals.length % 2 = 1 ∧ v[vals.length / 2]? = some m) ∨
      (vals.length % 2 = 0 ∧ ∃ a b, v[vals.length / 2 - 1]? = some a ∧
        v[vals.length / 2]? = some b ∧ m = (a + b) / .fin 2))

theorem IsMedian.unique {vals : List F64} {m m' : F64} (h : IsMedian vals m)
    (h' : IsMedian vals m') : m = m' := by
  obtain ⟨v, hperm, hsorted, hmid⟩ := h
  obtain ⟨v', hperm', hsorted', hmid'⟩ := h'
  obtain rfl : v = v' := (hperm.trans hperm'.symm).eq_of_pairwise
    (fun _ _ _ _ ↦ ExtNum.le_antisymm) hsorted hsorted'
  rcases hmid with ⟨hodd, hm⟩ | ⟨heven, a, b, ha, hb, rfl⟩
  · rcases hmid' with ⟨-, hm'⟩ | ⟨heven, -⟩
    · exact Option.some.inj (hm.symm.trans hm')
    · omega
  · rcases hmid' with ⟨hodd, -⟩ | ⟨-, a', b', ha', hb', rfl⟩
    · omega
    · obtain rfl := Option.some.inj (ha.symm.trans ha')
      obtain rfl := Option.some.inj (hb.symm.trans hb')
      rfl

theorem IsMedian.ne_nil {vals : List F64} {m : F64} (h : IsMedian vals m) : vals ≠ [] := by
  rintro rfl
  obtain ⟨v, hperm, -, ⟨hodd, -⟩ | ⟨-, a, b, ha, -⟩⟩ := h
  · exact absurd hodd (by decide)
  · rw [hperm.eq_nil] at ha
    exact absurd ha (by simp)

theorem isMedian_of_median {vals : List F64} {m : F64} (h : median vals = .ok m) :
    IsMedian vals m := by
  rw [median] at h
  split at h
  · exact absurd h Exec.panic_ne_ok
  next hnan =>
    have hlen : (vals.insertionSort (· ≤ ·)).length = vals.length := List.length_insertionSort _ _
    have hsorted : (vals.insertionSort (· ≤ ·)).Pairwise (· ≤ ·) := by
      rcases Nat.lt_or_ge vals.length 2 with hlt | hge
      · exact List.pairwise_iff_getElem.mpr fun i j _ hj hij ↦ by omega
      · exact ExtNum.pairwise_insertionSort fun a ha heq ↦ hnan ⟨hge, heq ▸ ha⟩
    refine ⟨_, List.perm_insertionSort _ _, hsorted, ?_⟩
    simp only [hlen] at h
    split at h
    next hodd => exact Or.inl ⟨hodd, Exec.expect_eq_ok.mp h⟩
    next heven =>
      split at h
      · exact absurd h Exec.panic_ne_ok
      · obtain ⟨a, ha, h⟩ := Exec.bind_eq_ok.mp h
        obtain ⟨b, hb, h⟩ := Exec.bind_eq_ok.mp h
        exact Or.inr ⟨by omega, a, b, Exec.expect_eq_ok.mp ha, Exec.expect_eq_ok.mp hb,
          (Exec.pure_eq_ok.mp h).symm⟩

/-- The values in the rows of an identifier, in the order of the file. -/
def ownValues (t : Table) (id : Str) : List F64 :=
  (t.rows.filter fun row ↦ t.field "row_id" row = id).map fun row ↦
    (F64.parse (t.field "value" row)).getD .nan

section

variable {results : Str} {meas : ProjMeas}

/-- Every value that is read parses, and each identifier has its own values. -/
theorem readProj_lookup (h : readProj results = .ok meas) :
    (∀ row ∈ (Table.parse results).rows,
      (F64.parse ((Table.parse results).field "value" row)).isSome) ∧
    ∀ id, meas.lookup id =
      let own := ownValues (Table.parse results) id
      if own = [] then none else some own := by
  obtain ⟨i, hid, h⟩ := Exec.bind_eq_ok.mp h
  obtain ⟨j, hvalue, h⟩ := Exec.bind_eq_ok.mp h
  have hgroups : meas = (Table.parse results).rows.foldl (fun meas row ↦
      Assoc.alter (fun vals ↦ vals.getD [] ++
        [(F64.parse ((Table.parse results).field "value" row)).getD .nan])
        ((Table.parse results).field "row_id" row) meas) [] ∧
      ∀ row ∈ (Table.parse results).rows,
        (F64.parse ((Table.parse results).field "value" row)).isSome := by
    refine Exec.eq_foldl_of_foldlM (fun meas row meas' hstep ↦ ?_) h
    obtain ⟨value, hcell, hstep⟩ := Exec.bind_eq_ok.mp hstep
    obtain ⟨v, hv, hstep⟩ := Exec.bind_eq_ok.mp hstep
    obtain ⟨id, hidcell, hstep⟩ := Exec.bind_eq_ok.mp hstep
    rw [Exec.ofOption_eq_ok] at hv
    rw [Table.field_eq hvalue hcell, Table.field_eq hid hidcell, hv]
    exact ⟨(Exec.pure_eq_ok.mp hstep).symm, rfl⟩
  obtain ⟨rfl, hparse⟩ := hgroups
  refine ⟨hparse, fun id ↦ ?_⟩
  rw [Assoc.foldl_alter_eq_groupOn]
  have hlookup := Assoc.lookup_map (fun rows : List (List Str) ↦ rows.map fun row ↦
    (F64.parse ((Table.parse results).field "value" row)).getD .nan) id
    (Assoc.groupOn (fun row ↦ (Table.parse results).field "row_id" row)
      (Table.parse results).rows)
  rw [hlookup, Assoc.lookup_groupOn]
  simp only [ownValues, List.map_eq_nil_iff]
  split <;> rfl

/-- The measurement of a kernel is the median of its own values. -/
theorem measured_eq_ok {id : Str} {om : Option F64} (h : readProj results = .ok meas)
    (hm : measured meas id = .ok om) :
    match om with
    | none => ownValues (Table.parse results) id = []
    | some m => ownValues (Table.parse results) id ≠ [] ∧
        IsMedian (ownValues (Table.parse results) id) m := by
  rw [measured, (readProj_lookup h).2 id] at hm
  dsimp only at hm
  split at hm
  next hnone =>
    obtain rfl := Exec.pure_eq_ok.mp hm
    by_contra hne
    rw [if_neg hne] at hnone
    cases hnone
  next vals hsome =>
    split at hsome
    · cases hsome
    next hne =>
      obtain rfl := Option.some.inj hsome
      obtain ⟨m, hmedian, rfl⟩ := Exec.map_eq_ok.mp hm
      exact ⟨hne, isMedian_of_median hmedian⟩

end

/-! ## What a run says -/

section

variable (w : World) (root : Str) (rates : Rates) (t : Table)

/-- The gate compares the measurement `m` of a kernel with its projection `r`. -/
structure Compared (k : KernelRow) (m : F64) (r : ProjectResult) : Prop where
  measured : IsMedian (ownValues t k.rowId) m
  projected : ∃ sass census n, benchSass w root k.binary = .ok sass ∧
    loopMix sass (Pattern.new k.regex) = .ok (census, n) ∧ n ≠ 0 ∧
    project census (ofU64 k.warps) k.memClass rates (.fin 5.82) = .ok r

/-- Both figures are numbers, and the projection is off by a fifth of the
measurement at most. -/
def Meets (k : KernelRow) : Prop :=
  ∃ (m p : ℚ) (r : ProjectResult), Compared w root rates t k (.fin m) r ∧
    r.ppmCycles = .fin p ∧ m ≠ 0 ∧ |p - m| ≤ |m| / 5

/-- The line of a kernel, from its measurements and its projection. -/
inductive LineOf (k : KernelRow) : Str → Prop
  | unmeasured : ownValues t k.rowId = [] → LineOf k (noMeasurement k)
  | unmatched {sass : Str} {census : Census} : ownValues t k.rowId ≠ [] →
      benchSass w root k.binary = .ok sass →
      loopMix sass (Pattern.new k.regex) = .ok (census, 0) → LineOf k (noKernelMatch k)
  | pass {m : F64} {r : ProjectResult} : Compared w root rates t k m r → k.gated = true →
      Meets w root rates t k → LineOf k (figures k m r "PASS")
  | fail {m : F64} {r : ProjectResult} : Compared w root rates t k m r → k.gated = true →
      ¬ Meets w root rates t k → LineOf k (figures k m r "FAIL")
  | demo {m : F64} {r : ProjectResult} : Compared w root rates t k m r → k.gated = false →
      LineOf k (figures k m r "demo")

/-- A failed gate kernel is one that does not meet its measurement. -/
structure Rules (k : KernelRow) (ruling : Bool × Str) : Prop where
  failed_iff : ruling.1 = true ↔ k.gated = true ∧ ¬ Meets w root rates t k
  line : LineOf w root rates t k ruling.2

end

section

variable {w : World} {root : Str} {rates : Rates} {results : Str} {meas : ProjMeas} {k : KernelRow}

theorem withinTol_iff {r : ProjectResult} {m : F64} : withinTol r m = true ↔
    ∃ p x : ℚ, r.ppmCycles = .fin p ∧ m = .fin x ∧ x ≠ 0 ∧ |p - x| ≤ |x| / 5 := by
  have hfifth : ∀ x : ℚ, (0.20 : ℚ) * |x| = |x| / 5 := fun x ↦ by ring
  rw [withinTol, decide_eq_true_eq, TOL, ExtNum.abs_relative_le_iff]
  simp only [hfifth]

theorem Compared.meets_iff {t : Table} {m : F64} {r : ProjectResult}
    (h : Compared w root rates t k m r) : Meets w root rates t k ↔ withinTol r m = true := by
  rw [withinTol_iff]
  constructor
  · rintro ⟨x, p, r', ⟨hm, sass', census', n', hsass', hmix', -, hr'⟩, hp, hx, hle⟩
    obtain ⟨sass, census, n, hsass, hmix, -, hr⟩ := h.projected
    obtain rfl := Except.ok.inj (hsass.symm.trans hsass')
    obtain ⟨rfl, -⟩ := Prod.mk.inj (Except.ok.inj (hmix.symm.trans hmix'))
    obtain rfl := Except.ok.inj (hr.symm.trans hr')
    obtain rfl := h.measured.unique hm
    exact ⟨p, x, hp, rfl, hx, hle⟩
  · rintro ⟨p, x, hp, rfl, hx, hle⟩
    exact ⟨x, p, r, h, hp, hx, hle⟩

theorem Compared.lineOf {t : Table} {m : F64} {r : ProjectResult}
    (h : Compared w root rates t k m r) : LineOf w root rates t k (projLine k m r) := by
  rw [projLine]
  split
  next hgated =>
    split
    next hwithin => exact .pass h hgated (h.meets_iff.mpr hwithin)
    next hwithin => exact .fail h hgated (mt h.meets_iff.mp hwithin)
  next hgated => exact .demo h (Bool.eq_false_of_not_eq_true hgated)

theorem ruleKernel_eq_ok {ruling : Bool × Str} (hread : readProj results = .ok meas)
    (h : ruleKernel w root rates meas k = .ok ruling) :
    Rules w root rates (Table.parse results) k ruling := by
  obtain ⟨om, hm, h⟩ := Exec.bind_eq_ok.mp h
  have hown := measured_eq_ok hread hm
  cases om with
  | none =>
      obtain rfl := Exec.pure_eq_ok.mp h
      have hnot : ¬ Meets w root rates (Table.parse results) k := by
        rintro ⟨m, -, -, ⟨hmedian, -⟩, -⟩
        exact hmedian.ne_nil hown
      exact ⟨by simp [hnot], .unmeasured hown⟩
  | some m =>
      obtain ⟨hne, hmedian⟩ := hown
      obtain ⟨sass, hsass, h⟩ := Exec.bind_eq_ok.mp h
      obtain ⟨⟨census, n⟩, hmix, h⟩ := Exec.bind_eq_ok.mp h
      dsimp only at h
      split at h
      next hn =>
        obtain rfl := Exec.pure_eq_ok.mp h
        subst hn
        have hnot : ¬ Meets w root rates (Table.parse results) k := by
          rintro ⟨-, -, -, ⟨-, sass', census', n', hsass', hmix', hn', -⟩, -⟩
          obtain rfl := Except.ok.inj (hsass.symm.trans hsass')
          obtain ⟨-, rfl⟩ := Prod.mk.inj (Except.ok.inj (hmix.symm.trans hmix'))
          exact hn' rfl
        exact ⟨by simp [hnot], .unmatched hne hsass hmix⟩
      next hn =>
        obtain ⟨r, hr, h⟩ := Exec.bind_eq_ok.mp h
        obtain rfl := Exec.pure_eq_ok.mp h
        have hcompared : Compared w root rates (Table.parse results) k m r :=
          ⟨hmedian, sass, census, n, hsass, hmix, hn, hr⟩
        exact ⟨by simp [hcompared.meets_iff], hcompared.lineOf⟩

/-- The inputs of a run: the rates of the table, and measurements that parse. -/
structure TreeInputs (w : World) (root : Str) (rates : Rates) (results : Str) : Prop where
  ops : ∃ table, w.read (opsPath root) = .ok table ∧ Rates.parse table = .ok rates
  proj : w.read (projPath root) = .ok results
  values : ∀ row ∈ (Table.parse results).rows,
    (F64.parse ((Table.parse results).field "value" row)).isSome

open Classical in
/-- The number of gate kernels that do not meet their measurement. -/
noncomputable def misses (w : World) (root : Str) (rates : Rates) (t : Table)
    (kernels : List KernelRow) : ℕ :=
  kernels.countP fun k ↦ k.gated = true ∧ ¬ Meets w root rates t k

/-- The report has one line for each kernel and the number of misses, and the
exit code is zero when there is none. -/
structure ProjectionGate (w : World) (root : Str) (rates : Rates) (results : Str)
    (kernels : List KernelRow) (report : Str) (code : ℕ) : Prop where
  inputs : TreeInputs w root rates results
  gate : gateKernels = .ok kernels
  report_eq : ∃ lines, List.Forall₂ (LineOf w root rates (Table.parse results)) kernels lines ∧
    report = verifyHeader ++ lines.flatten ++
      verifyTrailer (misses w root rates (Table.parse results) kernels)
  code_le : code ≤ 1
  code_eq_zero : code = 0 ↔
    ∀ k ∈ kernels, k.gated = true → Meets w root rates (Table.parse results) k

theorem verifyRow_eq_ok {st st' : ProjState} (hread : readProj results = .ok meas)
    (h : verifyRow w root rates meas st k = .ok st') :
    ∃ ruling, Rules w root rates (Table.parse results) k ruling ∧ st'.out = st.out ++ ruling.2 ∧
      st'.failures = st.failures + ruling.1.toNat := by
  obtain ⟨ruling, hruling, h⟩ := Exec.bind_eq_ok.mp h
  obtain ⟨failures, hfailures, h⟩ := Exec.bind_eq_ok.mp h
  obtain rfl := Exec.pure_eq_ok.mp h
  obtain ⟨-, rfl⟩ := checked_eq_ok.mp hfailures
  exact ⟨ruling, ruleKernel_eq_ok hread hruling, rfl, rfl⟩

end

/-- The absolute gate passes exactly the trees whose gate kernels all meet
their measurement, and its report accounts for every kernel. -/
theorem verifyProjection_gate {w : World} {root report : Str} {code : ℕ}
    (h : verifyProjection w root = .ok (report, code)) :
    ∃ rates results kernels, ProjectionGate w root rates results kernels report code := by
  obtain ⟨table, htable, h⟩ := Exec.bind_eq_ok.mp h
  obtain ⟨rates, hrates, h⟩ := Exec.bind_eq_ok.mp h
  obtain ⟨results, hresults, h⟩ := Exec.bind_eq_ok.mp h
  obtain ⟨meas, hmeas, h⟩ := Exec.bind_eq_ok.mp h
  obtain ⟨kernels, hkernels, h⟩ := Exec.bind_eq_ok.mp h
  obtain ⟨st, hst, h⟩ := Exec.bind_eq_ok.mp h
  obtain ⟨rfl, rfl⟩ := Prod.mk.inj (Exec.pure_eq_ok.mp h)
  obtain ⟨rulings, hrulings, hout, hfailures⟩ :=
    Exec.foldlM_rulings ProjState.out ProjState.failures
      (fun _ _ _ _ hrow ↦ verifyRow_eq_ok hmeas hrow) hst
  have hcount : rulings.countP (·.1) = misses w root rates (Table.parse results) kernels := by
    refine (countP_eq_of_forall₂ (hrulings.imp fun k ruling hrule ↦ ?_)).symm
    classical
    rw [Bool.eq_iff_iff]
    exact decide_eq_true_iff.trans hrule.failed_iff.symm
  rw [Nat.zero_add, hcount] at hfailures
  refine ⟨rates, results, kernels, ⟨⟨table, World.report_eq_ok.mp htable, hrates⟩,
    World.report_eq_ok.mp hresults, (readProj_lookup hmeas).1⟩, hkernels, ?_, ?_, ?_⟩
  · refine ⟨rulings.map (·.2), ?_, ?_⟩
    · exact List.forall₂_map_right_iff.mpr (hrulings.imp fun _ _ hrule ↦ hrule.line)
    · rw [hout, hfailures, List.flatMap_def]
  · split <;> omega
  · rw [hfailures]
    have hzero : misses w root rates (Table.parse results) kernels = 0 ↔
        ∀ k ∈ kernels, k.gated = true → Meets w root rates (Table.parse results) k := by
      simp [misses, List.countP_eq_zero]
    rw [← hzero]
    split <;> omega

/-- A tree with one measured kernel. -/
def ffmaTree : World where
  read p :=
    if p = opsPath "t" then .ok "row_id,value,pipe\nalu.ffma.tput,2.0,fma\n" else
    if p = projPath "t" then .ok "row_id,value\nproj.anchor.ffma,4.5\nproj.anchor.ffma,4\n" else
    .ok "Function : ffma_anchor\n/*0000*/ FFMA R0;\n/*0010*/ BRA 0x0;"
  present p := p = lit "t/bench/proj/anchors.sass"
  entries _ := .ok []
  cuobjdump _ := .error "cuobjdump: not found"
  cuobjdumpText _ _ := .error "cuobjdump: not found"
  writable _ := .ok ()

/-- The line of the measured kernel, against the mean of its two values. -/
def ffmaLine : Str :=
  "proj.anchor.ffma                    4.2        4.0   -5.9%         4.0 pipe:fma     PASS"

theorem verifyProjection_gate_ffmaTree :
    ∃ report rates results kernels, ProjectionGate ffmaTree "t" rates results kernels report 1 ∧
      (lines report)[1]? = some ffmaLine := by
  have hcode : (fun r : Str × ℕ ↦ (r.2, (lines r.1)[1]?)) <$> verifyProjection ffmaTree "t" =
      .ok (1, some ffmaLine) := by
    decide +kernel
  obtain ⟨⟨report, code⟩, h, hline⟩ := Exec.map_eq_ok.mp hcode
  obtain ⟨rfl, hline⟩ := Prod.mk.inj hline
  obtain ⟨rates, results, kernels, hgate⟩ := verifyProjection_gate h
  exact ⟨report, rates, results, kernels, hgate, hline⟩

end CalxMill.Nvidia
