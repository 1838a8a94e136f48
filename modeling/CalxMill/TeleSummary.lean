import CalxMill.Lib.Mean
import CalxMill.Lib.Ranking
import CalxMill.Nvidia.Projection
import CalxMill.Overlap
import CalxMill.RunClock
import CalxMill.Rust.Checked
import CalxMill.Rust.Fmt
import CalxMill.TeleFile

/-!
# The summary of a telemetry file

One line of totals, the heaviest ops by their measured wall, and the realized
overlap of the neighbours that run on different lanes.
-/

namespace CalxMill

open Lib Rust

def tu102PeakDramGbps : F64 := .fin 609

def tu102HmmaPerCycle : F64 := Nvidia.TENSOR_HMMA_PER_SM_CLK * .fin 72

def tu102FmaPerCycle : F64 := .fin 2 * .fin 72

/-- The peak rate of the pipe that an op kind dispatches to; zero for any other kind. -/
def opPipeRate (kind : Str) : F64 :=
  let k := toAsciiUppercase kind
  if contains k "FATTN" || contains k "HMMA" || contains k "GEMM" || contains k "ATTN" then
    tu102HmmaPerCycle
  else if contains k "MMVQ" || contains k "GEMV" || contains k "DP4A" || contains k "IDP" then
    tu102FmaPerCycle
  else .fin 0

/-! ## The totals -/

def sumU64 (f : TeleRecord → ℕ) (recs : List TeleRecord) : Exec Str ℕ :=
  recs.foldlM (fun t r ↦ addU64 t (f r)) 0

/-- The milliseconds of a record at its effective clock. -/
def recordMs (ctx : TeleCtx) (r : TeleRecord) : F64 :=
  asF64 r.cycles.toNat / (r.effectiveClockGhz ctx * .fin 1000000000) * .fin 1000

/-- The line of the totals. -/
def totalsText (run : F64) (records nBytes nBad nClock sumCyc sumSpan : ℕ) (sumMs : F64) : Str :=
  "telemetry: " ++ natStr records ++ " op records; run clock " ++ F64.fixed 3 run ++
    " GHz (derived consensus); Σcycles " ++ natStr sumCyc ++ " (" ++ F64.fixed 3 sumMs ++
    " ms at per-record effective clocks); Σgt-span " ++
    F64.fixed 3 (asF64 sumSpan / .fin 1000000) ++ " ms; " ++ natStr nBytes ++ " with bytes; " ++
    natStr nBad ++ " roofline-violating (T1 reject); " ++ natStr nClock ++
    " clock-implausible (consensus fallback, no anchor)\n"

def totalsLine (ctx : TeleCtx) (recs : List TeleRecord) : Exec Str Str := do
  let nBad := recs.countP fun r ↦ !r.rooflineOk tu102PeakDramGbps
  let nClock := recs.countP fun r ↦ !r.clockPlausible clockTolFrac ctx.runClockGhz
  let nBytes := recs.countP fun r ↦ decide (0 < r.bytes)
  let sumCyc ← sumU64 (·.cycles.toNat) recs
  let sumMs := (recs.map (recordMs ctx)).foldl (· + ·) (.fin 0)
  let sumSpan ← sumU64 (·.spanNs) recs
  pure (totalsText ctx.runClockGhz recs.length nBytes nBad nClock sumCyc sumSpan sumMs)

/-! ## The heaviest ops -/

/-- At least as many cycles. -/
def Heavier (a b : TeleRecord) : Prop := b.cycles ≤ a.cycles

instance : DecidableRel Heavier := fun a b ↦ inferInstanceAs (Decidable (b.cycles ≤ a.cycles))

/-- The records by descending cycles, equal ones in the order of the file. -/
def byWall (recs : List TeleRecord) : List TeleRecord := recs.insertionSort Heavier

/-- The column that binds a record; none without a byte or an op column. -/
def bindLabel (ctx : TeleCtx) (r : TeleRecord) : Str :=
  let rate := opPipeRate r.kind
  if r.bytes = 0 ∧ (r.ops = 0 ∨ rate = .fin 0) then "-" else
  match measuredBottleneck r rate (.fin 0) ctx with
  | .memory => "mem"
  | .pipe _ => "pipe"
  | .latency => "lat"
  | .issueCap => "issue"

def topHeader : Str := "  top ops by measured wall (op_index kind lane cycles wall-ns bind):\n"

def topLine (ctx : TeleCtx) (r : TeleRecord) : Str :=
  "    " ++ padLeft 5 (natStr r.opIndex.toNat) ++ " " ++ padRight 16 r.kind ++ " " ++
    padRight 7 (if r.lane = .memory then "mem" else "compute" : String) ++ " " ++
    padLeft 10 (natStr r.cycles.toNat) ++ " " ++ padLeft 10 (natStr r.wallNs) ++ " " ++
    padLeft 5 (bindLabel ctx r) ++ "\n"

def topLines (ctx : TeleCtx) (recs : List TeleRecord) : Str :=
  topHeader ++ ((byWall recs).take 8).flatMap (topLine ctx)

/-! ## The realized overlap -/

/-- The neighbours on different lanes. -/
def crossings (recs : List TeleRecord) : List (TeleRecord × TeleRecord) :=
  (recs.zip recs.tail).filter fun p ↦ p.1.lane ≠ p.2.lane

def overlapSum (pairs : List (TeleRecord × TeleRecord)) : F64 :=
  pairs.foldl (fun s p ↦ s + overlapFraction p.1 p.2) (.fin 0)

/-- The pairs with more than five percent of overlap. -/
def overlapping (pairs : List (TeleRecord × TeleRecord)) : ℕ :=
  pairs.countP fun p ↦ decide (.fin 0.05 < overlapFraction p.1 p.2)

def overlapLine (recs : List TeleRecord) : Str :=
  let pairs := crossings recs
  if pairs = [] then [] else
  "  adjacent lane-crossing pairs: " ++ natStr pairs.length ++ "; realized-overlap mean " ++
    F64.fixed 3 (overlapSum pairs / asF64 pairs.length) ++ ", " ++ natStr (overlapping pairs) ++
    " with >5% overlap (measured concurrency for overlapped_contended / T6)\n"

/-! ## The rows printed -/

instance totalHeavier : Std.Total Heavier := ⟨fun _ _ ↦ UInt64.le_total _ _⟩

instance transHeavier : IsTrans TeleRecord Heavier := ⟨fun _ _ _ hab hbc ↦ UInt64.le_trans hbc hab⟩

/-- The summary lists the eight heaviest records, the heaviest first; of records
with equal cycles it lists the first ones of the file, in their order. -/
theorem topLines_best (ctx : TeleCtx) (recs : List TeleRecord) :
    ∃ top, topLines ctx recs = topHeader ++ top.flatMap (topLine ctx) ∧ Best Heavier 8 recs top ∧
      ∀ c, top.filter (·.cycles = c) <+: recs.filter (·.cycles = c) := by
  refine ⟨(byWall recs).take 8, rfl, best_take 8 recs, fun c ↦ ?_⟩
  have hties : (byWall recs).filter (·.cycles = c) = recs.filter (·.cycles = c) := by
    apply filter_insertionSort
    intro x _ y _ hx hy
    have hcycles : y.cycles = x.cycles := (of_decide_eq_true hy).trans (of_decide_eq_true hx).symm
    exact UInt64.le_of_eq hcycles
  rw [← hties]
  exact (List.take_prefix 8 _).filter _

/-! ## The mean overlap -/

/-- The realized overlap of a pair. -/
def pairOverlap (p : TeleRecord × TeleRecord) : ℚ := overlap p.1.span p.2.span

theorem overlapSum_eq (pairs : List (TeleRecord × TeleRecord)) :
    overlapSum pairs = .fin (pairs.map pairOverlap).sum := by
  have hfold : ∀ s : ℚ, pairs.foldl (fun s p ↦ s + overlapFraction p.1 p.2) (.fin s) =
      (.fin (s + (pairs.map pairOverlap).sum) : F64) := by
    induction pairs with
    | nil =>
        intro s
        rw [List.map_nil, List.sum_nil, add_zero]
        rfl
    | cons p pairs ih =>
        intro s
        rw [List.foldl_cons, overlapFraction_eq, ExtNum.fin_add, ih, List.map_cons, List.sum_cons,
          ← add_assoc]
        rfl
  rw [overlapSum, hfold, zero_add]

/-- The pair overlaps by more than five percent. -/
def Concurrent (p : TeleRecord × TeleRecord) : Prop := 0.05 < pairOverlap p

instance : DecidablePred Concurrent := fun p ↦ inferInstanceAs (Decidable (0.05 < pairOverlap p))

theorem overlapping_eq (pairs : List (TeleRecord × TeleRecord)) :
    overlapping pairs = pairs.countP fun p ↦ decide (Concurrent p) := by
  rw [overlapping]
  apply List.countP_congr
  intro p _
  rw [overlapFraction_eq, decide_eq_true_iff, decide_eq_true_iff]
  exact ExtNum.fin_lt_fin _ _

/-- The line on the neighbours that cross lanes shows the mean of their
overlaps.  It is zero when no such pair ran concurrently, and one when in each
pair one op ran inside the other. -/
theorem overlapLine_mean (recs : List TeleRecord) (h : crossings recs ≠ []) :
    ∃ m, overlapLine recs = "  adjacent lane-crossing pairs: " ++
        natStr (crossings recs).length ++ "; realized-overlap mean " ++ F64.fixed 3 (.fin m) ++
        ", " ++ natStr ((crossings recs).countP fun p ↦ decide (Concurrent p)) ++
        " with >5% overlap (measured concurrency for overlapped_contended / T6)\n" ∧
      m = mean ((crossings recs).map pairOverlap) ∧ 0 ≤ m ∧ m ≤ 1 ∧
      (m = 0 ↔ ∀ p ∈ crossings recs, Disjoint p.1.span p.2.span) ∧
      (m = 1 ↔ ∀ p ∈ crossings recs, p.1.span.Nonempty ∧ p.2.span.Nonempty ∧
        (p.1.span ⊆ p.2.span ∨ p.2.span ⊆ p.1.span)) := by
  have hne : (crossings recs).map pairOverlap ≠ [] := by simpa using h
  have hlow : ∀ x ∈ (crossings recs).map pairOverlap, 0 ≤ x := by
    rw [List.forall_mem_map]
    exact fun _ _ ↦ overlap_nonneg
  have hhigh : ∀ x ∈ (crossings recs).map pairOverlap, x ≤ 1 := by
    rw [List.forall_mem_map]
    exact fun _ _ ↦ overlap_le_one
  have hlen : ((crossings recs).length : ℚ) ≠ 0 := by simpa using h
  refine ⟨_, ?_, rfl, le_mean hne hlow, mean_le hne hhigh, ?_, ?_⟩
  · rw [overlapLine, if_neg h, overlapSum_eq, overlapping_eq, asF64, ExtNum.fin_div _ hlen, mean,
      List.length_map]
  · rw [mean_eq_lower_iff hne hlow, List.forall_mem_map]
    exact forall₂_congr fun p _ ↦ overlap_eq_zero_iff
  · rw [mean_eq_upper_iff hne hhigh, List.forall_mem_map]
    exact forall₂_congr fun p _ ↦ overlap_eq_one_iff

/-- A compute op that runs inside a memory op. -/
def nestedPair : List TeleRecord :=
  [⟨0, "X", .memory, 0, 4, 7, 0, 0, 0⟩, ⟨1, "Y", .compute, 1, 3, 4, 0, 0, 0⟩]

theorem overlapLine_mean_nestedPair :
    ∃ m : ℚ, m = mean ((crossings nestedPair).map pairOverlap) ∧ m = 1 ∧
      ¬ ∀ p ∈ crossings nestedPair, Disjoint p.1.span p.2.span := by
  obtain ⟨m, -, hm, -, -, hzero, hone⟩ := overlapLine_mean nestedPair (by decide)
  have hnested : m = 1 := hone.mpr (by decide)
  refine ⟨m, hm, hnested, fun hdisjoint ↦ ?_⟩
  exact one_ne_zero (hnested.symm.trans (hzero.mpr hdisjoint))

/-! ## The totals in rationals -/

namespace TeleRecord

/-- The bytes of the record do not fit through the memory in its wall. -/
def OverRoofline (r : TeleRecord) : Prop := r.wallNs ≠ 0 ∧ 609 * r.wallNs < r.bytes.toNat

/-- The record's own clock is away from the clock of the run. -/
def OffClock (run : ℚ) (r : TeleRecord) : Prop := r.Live ∧ 0.05 * run < |r.clock - run|

instance (r : TeleRecord) : Decidable r.OverRoofline := inferInstanceAs (Decidable (_ ∧ _))

instance (run : ℚ) (r : TeleRecord) : Decidable (r.OffClock run) :=
  inferInstanceAs (Decidable (_ ∧ _))

theorem not_rooflineOk_iff (r : TeleRecord) :
    (!r.rooflineOk tu102PeakDramGbps) = decide r.OverRoofline := by
  have hpeak : (0 : ℚ) ≤ 609 := by norm_num
  have hiff := r.rooflineOk_iff hpeak
  have hcast : (r.bytes.toNat : ℚ) ≤ 609 * r.wallNs ↔ r.bytes.toNat ≤ 609 * r.wallNs := by
    norm_cast
  rw [hcast] at hiff
  rw [Bool.eq_iff_iff, Bool.not_eq_true', ← Bool.not_eq_true, decide_eq_true_iff]
  exact (not_congr hiff).trans (by rw [not_or, not_le, OverRoofline])

theorem not_clockPlausible_iff (run : ℚ) (r : TeleRecord) :
    (!r.clockPlausible clockTolFrac (.fin run)) = decide (r.OffClock run) := by
  rw [clockPlausible, derivedClockGhz_eq]
  by_cases hlive : r.Live
  · have hnear : (.fin r.clock - .fin run : F64).abs ≤ clockTolFrac * .fin run ↔
        |r.clock - run| ≤ 0.05 * run := by
      rw [ExtNum.fin_sub]
      exact Iff.rfl
    simp only [hlive, if_true, hnear, OffClock, true_and, ← not_le, decide_not]
  · simp only [hlive, if_false, OffClock, false_and, decide_false, Bool.not_true]

/-- The milliseconds of a record at its effective clock. -/
def ms (run : ℚ) (r : TeleRecord) : ℚ := r.cycles.toNat / (r.effectiveClock run * 1000000)

theorem recordMs_eq {run : ℚ} (hrun : 0 < run) (peak : F64) (r : TeleRecord) :
    recordMs ⟨.fin run, peak⟩ r = .fin (r.ms run) := by
  have hpos := r.effectiveClock_pos hrun
  rw [recordMs, effectiveClockGhz_eq, asF64, ExtNum.fin_mul,
    ExtNum.fin_div _ (by positivity), ExtNum.fin_mul, ms]
  congr 1
  field_simp
  ring

/-- The conversion of a record is within five percent of the one at the clock
of the run. -/
theorem ms_bounds {run : ℚ} (hrun : 0 < run) (r : TeleRecord) :
    r.cycles.toNat / (1.05 * run * 1000000) ≤ r.ms run ∧
      r.ms run ≤ r.cycles.toNat / (0.95 * run * 1000000) := by
  have hpos := r.effectiveClock_pos hrun
  obtain ⟨hlow, hhigh⟩ := abs_le.mp (r.effectiveClock_near hrun.le)
  have hcycles : (0 : ℚ) ≤ r.cycles.toNat := Nat.cast_nonneg _
  rw [ms]
  constructor
  · apply div_le_div_of_nonneg_left hcycles (by positivity)
    linarith
  · apply div_le_div_of_nonneg_left hcycles (by positivity)
    linarith

end TeleRecord

theorem sumMs_eq {run : ℚ} (hrun : 0 < run) (peak : F64) (recs : List TeleRecord) :
    (recs.map (recordMs ⟨.fin run, peak⟩)).foldl (· + ·) (.fin 0) =
      (.fin (recs.map (·.ms run)).sum : F64) := by
  have hfold : ∀ s : ℚ, (recs.map (recordMs ⟨.fin run, peak⟩)).foldl (· + ·) (.fin s) =
      (.fin (s + (recs.map (·.ms run)).sum) : F64) := by
    induction recs with
    | nil =>
        intro s
        rw [List.map_nil, List.map_nil, List.sum_nil, add_zero]
        rfl
    | cons r recs ih =>
        intro s
        rw [List.map_cons, List.foldl_cons, TeleRecord.recordMs_eq hrun, ExtNum.fin_add, ih,
          List.map_cons, List.sum_cons, ← add_assoc]
  rw [hfold, zero_add]

theorem sum_ms_bounds {run : ℚ} (hrun : 0 < run) (recs : List TeleRecord) :
    ((recs.map (·.cycles.toNat)).sum : ℕ) / (1.05 * run * 1000000) ≤ (recs.map (·.ms run)).sum ∧
      (recs.map (·.ms run)).sum ≤
        ((recs.map (·.cycles.toNat)).sum : ℕ) / (0.95 * run * 1000000) := by
  induction recs with
  | nil => simp
  | cons r recs ih =>
      obtain ⟨hlow, hhigh⟩ := r.ms_bounds hrun
      simp only [List.map_cons, List.sum_cons, Nat.cast_add, add_div]
      exact ⟨add_le_add hlow ih.1, add_le_add hhigh ih.2⟩

theorem totalsLine_eq_ok {run : ℚ} (hrun : 0 < run) {peak : F64} {recs : List TeleRecord}
    {line : Str} : totalsLine ⟨.fin run, peak⟩ recs = .ok line ↔
      (recs.map (·.cycles.toNat)).sum < 2 ^ 64 ∧ (recs.map (·.spanNs)).sum < 2 ^ 64 ∧
      line = totalsText (.fin run) recs.length (recs.countP fun r ↦ decide (0 < r.bytes))
        (recs.countP fun r ↦ decide r.OverRoofline) (recs.countP fun r ↦ decide (r.OffClock run))
        (recs.map (·.cycles.toNat)).sum (recs.map (·.spanNs)).sum
        (.fin (recs.map (·.ms run)).sum) := by
  have hsum : ∀ {f : TeleRecord → ℕ} {t : ℕ}, sumU64 f recs = .ok t ↔
      (recs.map f).sum < 2 ^ 64 ∧ (recs.map f).sum = t := by
    intro f t
    have hfold := foldlM_addU64_eq_ok (f := f) (l := recs) (t := t) (n := 0) (by norm_num)
    rwa [zero_add] at hfold
  simp only [totalsLine, TeleRecord.not_rooflineOk_iff, TeleRecord.not_clockPlausible_iff,
    sumMs_eq hrun, Exec.bind_eq_ok, hsum, Exec.pure_eq_ok]
  constructor
  · rintro ⟨_, ⟨hcycles, rfl⟩, _, ⟨hspan, rfl⟩, rfl⟩
    exact ⟨hcycles, hspan, rfl⟩
  · rintro ⟨hcycles, hspan, rfl⟩
    exact ⟨_, ⟨hcycles, rfl⟩, _, ⟨hspan, rfl⟩, rfl⟩

/-- The line of the totals is printed exactly when the cycles and the spans add
up within a `u64`.  The milliseconds on it take each record at a clock of its
own, yet they are within five percent of the cycles at the clock of the run. -/
theorem totalsLine_ms {run : ℚ} (hrun : 0 < run) (peak : F64) (recs : List TeleRecord) :
    ∃ ms : ℚ, ((recs.map (·.cycles.toNat)).sum : ℕ) / (1.05 * run * 1000000) ≤ ms ∧
      ms ≤ ((recs.map (·.cycles.toNat)).sum : ℕ) / (0.95 * run * 1000000) ∧
      ∀ line, totalsLine ⟨.fin run, peak⟩ recs = .ok line ↔
        (recs.map (·.cycles.toNat)).sum < 2 ^ 64 ∧ (recs.map (·.spanNs)).sum < 2 ^ 64 ∧
        line = totalsText (.fin run) recs.length (recs.countP fun r ↦ decide (0 < r.bytes))
          (recs.countP fun r ↦ decide r.OverRoofline)
          (recs.countP fun r ↦ decide (r.OffClock run))
          (recs.map (·.cycles.toNat)).sum (recs.map (·.spanNs)).sum (.fin ms) := by
  obtain ⟨hlow, hhigh⟩ := sum_ms_bounds hrun recs
  exact ⟨_, hlow, hhigh, fun line ↦ totalsLine_eq_ok hrun⟩

theorem totalsLine_ms_nestedPair :
    ∃ ms : ℚ, 11 / (1.05 * 1.5 * 1000000) ≤ ms ∧ ms ≤ 11 / (0.95 * 1.5 * 1000000) ∧
      totalsLine ⟨.fin 1.5, .fin 609⟩ nestedPair =
        .ok (totalsText (.fin 1.5) 2 0 0 2 11 6 (.fin ms)) := by
  have hrun : (0 : ℚ) < 1.5 := by norm_num
  obtain ⟨ms, hlow, hhigh, hline⟩ := totalsLine_ms hrun (.fin 609) nestedPair
  have hcycles : (nestedPair.map (·.cycles.toNat)).sum = 11 := by decide
  have hspan : (nestedPair.map (·.spanNs)).sum = 6 := by decide
  rw [hcycles] at hlow hhigh
  refine ⟨ms, hlow, hhigh, (hline _).mpr ⟨?_, ?_, ?_⟩⟩
  · rw [hcycles]; norm_num
  · rw [hspan]; norm_num
  · have hover : nestedPair.countP (fun r ↦ decide r.OverRoofline) = 0 := by decide
    have hoff : nestedPair.countP (fun r ↦ decide (r.OffClock 1.5)) = 2 := by decide +kernel
    rw [hcycles, hspan, hover, hoff]
    rfl

end CalxMill
