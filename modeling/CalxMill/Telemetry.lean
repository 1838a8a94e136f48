import CalxMill.Latency
import CalxMill.SteadyState
import CalxMill.Validity

/-!
# Measured records

A telemetry record of one op: its time stamps, cycles, bytes and ops.  Two
rules reject a record as an anchor: it implies a DRAM rate above the part's
peak, or a clock away from the consensus of the run.  The gate judges a
projection against a record without looking at either rule.  A record off the
clock of the run is judged at that clock, whatever its own time stamps say.
-/

namespace CalxMill

open Lib Rust

structure TeleCtx where
  runClockGhz : F64
  peakDramGbps : F64

structure TeleRecord where
  opIndex : UInt32
  kind : Str
  lane : Lane
  gtStartNs : UInt64
  gtEndNs : UInt64
  cycles : UInt64
  bytes : UInt64
  ops : UInt64
  opWallNs : UInt64

/-- `as f64` on an unsigned integer. -/
def asF64 (n : ℕ) : F64 := .fin n

def clockTolFrac : F64 := .fin 0.05

namespace TeleRecord

/-- The subtraction saturates at zero. -/
def spanNs (r : TeleRecord) : ℕ := r.gtEndNs.toNat - r.gtStartNs.toNat

def wallNs (r : TeleRecord) : ℕ :=
  if 0 < r.opWallNs.toNat then max r.opWallNs.toNat r.spanNs else r.spanNs

def achievedGbps (r : TeleRecord) (fl : Rounding := fun x ↦ x) : F64 :=
  if r.wallNs = 0 ∨ r.bytes = 0 then .fin 0
  else fl (fl (asF64 r.bytes.toNat) / fl (asF64 r.wallNs))

def rooflineOk (r : TeleRecord) (peakDramGbps : F64) (fl : Rounding := fun x ↦ x) : Bool :=
  r.achievedGbps fl ≤ peakDramGbps

def derivedClockGhz (r : TeleRecord) (fl : Rounding := fun x ↦ x) : Option F64 :=
  if r.spanNs = 0 ∨ r.cycles = 0 then none
  else some (fl (fl (asF64 r.cycles.toNat) / fl (asF64 r.spanNs)))

def clockPlausible (r : TeleRecord) (tolFrac runGhz : F64) (fl : Rounding := fun x ↦ x) : Bool :=
  match r.derivedClockGhz fl with
  | none => true
  | some c => (fl (c - runGhz)).abs ≤ fl (tolFrac * runGhz)

def effectiveClockGhz (r : TeleRecord) (ctx : TeleCtx) (fl : Rounding := fun x ↦ x) : F64 :=
  match r.derivedClockGhz fl with
  | none => ctx.runClockGhz
  | some c =>
      if r.clockPlausible (fl clockTolFrac) ctx.runClockGhz fl then c else ctx.runClockGhz

def dramBytesPerCycle (r : TeleRecord) (ctx : TeleCtx) (fl : Rounding := fun x ↦ x) : F64 :=
  fl (ctx.peakDramGbps / r.effectiveClockGhz ctx fl)

end TeleRecord

def measuredSteadyState (r : TeleRecord) (peakPipeRate : F64) (ctx : TeleCtx)
    (fl : Rounding := fun x ↦ x) : SteadyState :=
  let mem := if 0 < r.bytes.toNat then
    [(ResourceKind.memoryBw, fl (fl (asF64 r.bytes.toNat) / r.dramBytesPerCycle ctx fl))] else []
  let pipe := if 0 < r.ops.toNat ∧ .fin 0 < peakPipeRate then
    [(ResourceKind.pipe 0, fl (fl (asF64 r.ops.toNat) / peakPipeRate))] else []
  -- the measured wall, not the largest column
  { selectBound (mem ++ pipe) with ppmCycles := fl (asF64 r.cycles.toNat) }

namespace TeleRecord

def memCycles (r : TeleRecord) (ctx : TeleCtx) (fl : Rounding := fun x ↦ x) : F64 :=
  if 0 < r.bytes.toNat then fl (fl (asF64 r.bytes.toNat) / r.dramBytesPerCycle ctx fl) else .fin 0

def pipeCycles (r : TeleRecord) (peakPipeRate : F64) (fl : Rounding := fun x ↦ x) : F64 :=
  if 0 < r.ops.toNat ∧ .fin 0 < peakPipeRate then fl (fl (asF64 r.ops.toNat) / peakPipeRate)
  else .fin 0

end TeleRecord

def measuredBottleneck (r : TeleRecord) (peakPipeRate tol : F64) (ctx : TeleCtx)
    (fl : Rounding := fun x ↦ x) : Bottleneck :=
  let wall := fl (asF64 r.cycles.toNat)
  let mem := r.memCycles ctx fl
  let pipe := r.pipeCycles peakPipeRate fl
  let top := mem.fmax pipe
  if fl (top + tol) < wall then .latency else
  if pipe ≤ mem then .memory else .pipe 0

def gateOp (projected : SteadyState) (projBottleneck : Bottleneck) (r : TeleRecord)
    (peakPipeRate tolCyc tolCls : F64) (ctx : TeleCtx) (fl : Rounding := fun x ↦ x) : Verdict :=
  let boundOk : Bool := (fl (projected.ppmCycles - fl (asF64 r.cycles.toNat))).abs ≤ tolCyc
  let classOk : Bool := projBottleneck = measuredBottleneck r peakPipeRate tolCls ctx fl
  if boundOk && classOk then .certified else
  if boundOk then .provisional else .refused

/-! ## The rejection rules -/

namespace TeleRecord

variable (r : TeleRecord)

theorem achievedGbps_eq : r.achievedGbps = .fin (r.bytes.toNat / r.wallNs) := by
  rw [achievedGbps]
  split
  next h =>
    rcases h with h | h
    · simp [h]
    · simp [h]
  next h =>
    have hwall : (r.wallNs : ℚ) ≠ 0 := Nat.cast_ne_zero.mpr (not_or.mp h).1
    exact ExtNum.fin_div _ hwall

/-- The roofline in integers: the bytes do not exceed the peak over the wall. -/
theorem rooflineOk_iff {peak : ℚ} (hpeak : 0 ≤ peak) :
    r.rooflineOk (.fin peak) ↔ r.wallNs = 0 ∨ (r.bytes.toNat : ℚ) ≤ peak * r.wallNs := by
  rw [rooflineOk, decide_eq_true_eq, achievedGbps_eq, ExtNum.fin_le_fin]
  rcases Nat.eq_zero_or_pos r.wallNs with hwall | hwall
  · simp [hwall, hpeak]
  · have hpos : (0 : ℚ) < r.wallNs := Nat.cast_pos.mpr hwall
    rw [div_le_iff₀ hpos]
    exact (or_iff_right hwall.ne').symm

end TeleRecord

/-! ## The clock of the run -/

/-- The cycles that the bytes of a record take at a clock. -/
def bytesAt (fl : Rounding) (bytes : UInt64) (peakDramGbps clockGhz : F64) : F64 :=
  if 0 < bytes.toNat then fl (fl (asF64 bytes.toNat) / fl (peakDramGbps / clockGhz)) else .fin 0

/-- The column that explains a wall: latency above both columns, memory before
the pipe. -/
def Binds (fl : Rounding) (wall mem pipe tol : F64) : Bottleneck → Prop
  | .latency => fl (mem.fmax pipe + tol) < wall
  | .memory => ¬ fl (mem.fmax pipe + tol) < wall ∧ pipe ≤ mem
  | .pipe i => i = 0 ∧ ¬ fl (mem.fmax pipe + tol) < wall ∧ ¬ pipe ≤ mem
  | .issueCap => False

namespace TeleRecord

variable {r r' : TeleRecord} {fl : Rounding} {ctx : TeleCtx}

/-- The record has a clock of its own, near enough to that of the run to be
used. -/
def OwnClock (r : TeleRecord) (fl : Rounding) (ctx : TeleCtx) : Prop :=
  (r.derivedClockGhz fl).isSome ∧ r.clockPlausible (fl clockTolFrac) ctx.runClockGhz fl = true

theorem effectiveClockGhz_of_not_ownClock (h : ¬ r.OwnClock fl ctx) :
    r.effectiveClockGhz ctx fl = ctx.runClockGhz := by
  rw [effectiveClockGhz]
  split
  next => rfl
  next c hclock => exact if_neg fun hplausible ↦ h ⟨hclock ▸ rfl, hplausible⟩

theorem not_ownClock_of_implausible
    (h : r.clockPlausible (fl clockTolFrac) ctx.runClockGhz fl = false) : ¬ r.OwnClock fl ctx :=
  fun hown ↦ Bool.false_ne_true (h.symm.trans hown.2)

theorem memCycles_of_not_ownClock (h : ¬ r.OwnClock fl ctx) :
    r.memCycles ctx fl = bytesAt fl r.bytes ctx.peakDramGbps ctx.runClockGhz := by
  rw [memCycles, dramBytesPerCycle, effectiveClockGhz_of_not_ownClock h, bytesAt]

theorem eq_measuredBottleneck_iff {b : Bottleneck} {peakPipeRate tol : F64} :
    b = measuredBottleneck r peakPipeRate tol ctx fl ↔
      Binds fl (fl (asF64 r.cycles.toNat)) (r.memCycles ctx fl) (r.pipeCycles peakPipeRate fl)
        tol b := by
  rw [measuredBottleneck]
  split
  next hlat => cases b <;> simp [Binds, hlat]
  next hlat =>
    split
    next hmem => cases b <;> simp [Binds, hlat, hmem]
    next hmem => cases b <;> simp [Binds, hlat, hmem]

/-- Off their own clocks, records with the same counts are in the same column. -/
theorem measuredBottleneck_congr (h : ¬ r.OwnClock fl ctx) (h' : ¬ r'.OwnClock fl ctx)
    (hcycles : r'.cycles = r.cycles) (hbytes : r'.bytes = r.bytes) (hops : r'.ops = r.ops)
    (peakPipeRate tol : F64) :
    measuredBottleneck r' peakPipeRate tol ctx fl =
      measuredBottleneck r peakPipeRate tol ctx fl := by
  have hmem : r'.memCycles ctx fl = r.memCycles ctx fl := by
    rw [memCycles_of_not_ownClock h, memCycles_of_not_ownClock h', hbytes]
  have hpipe : r'.pipeCycles peakPipeRate fl = r.pipeCycles peakPipeRate fl := by
    rw [pipeCycles, pipeCycles, hops]
  rw [measuredBottleneck, measuredBottleneck, hcycles, hmem, hpipe]

end TeleRecord

/-! ## What the gate certifies -/

theorem gateOp_eq_certified {projected : SteadyState} {b : Bottleneck} {r : TeleRecord}
    {peakPipeRate tolCyc tolCls : F64} {ctx : TeleCtx} {fl : Rounding} :
    gateOp projected b r peakPipeRate tolCyc tolCls ctx fl = .certified ↔
      (fl (projected.ppmCycles - fl (asF64 r.cycles.toNat))).abs ≤ tolCyc ∧
        b = measuredBottleneck r peakPipeRate tolCls ctx fl := by
  rw [gateOp]
  split
  next h => exact iff_of_true rfl (by simpa using h)
  next h =>
    apply iff_of_false _ (by simpa using h)
    split <;> exact nofun

/-- A record whose clock is implausible is judged at the clock of the run: it
is certified exactly when the projection agrees with it as converted at that
clock, and like every record of the same counts without a clock of its own. -/
theorem gateOp_of_implausible (fl : Rounding) (projected : SteadyState) (b : Bottleneck)
    (r : TeleRecord) (peakPipeRate tolCyc tolCls : F64) (ctx : TeleCtx)
    (h : r.clockPlausible (fl clockTolFrac) ctx.runClockGhz fl = false) :
    (gateOp projected b r peakPipeRate tolCyc tolCls ctx fl = .certified ↔
      (fl (projected.ppmCycles - fl (asF64 r.cycles.toNat))).abs ≤ tolCyc ∧
        Binds fl (fl (asF64 r.cycles.toNat))
          (bytesAt fl r.bytes ctx.peakDramGbps ctx.runClockGhz)
          (r.pipeCycles peakPipeRate fl) tolCls b) ∧
    ∀ r' : TeleRecord, r'.cycles = r.cycles → r'.bytes = r.bytes → r'.ops = r.ops →
      ¬ r'.OwnClock fl ctx →
      gateOp projected b r' peakPipeRate tolCyc tolCls ctx fl =
        gateOp projected b r peakPipeRate tolCyc tolCls ctx fl := by
  have hown := TeleRecord.not_ownClock_of_implausible h
  constructor
  · rw [gateOp_eq_certified, TeleRecord.eq_measuredBottleneck_iff,
      TeleRecord.memCycles_of_not_ownClock hown]
  · intro r' hcycles hbytes hops hown'
    rw [gateOp, gateOp, hcycles,
      TeleRecord.measuredBottleneck_congr hown hown' hcycles hbytes hops]

/-- 100 cycles in 1000 ns, off a clock of 1.455 GHz: without its time stamps
the record is certified as it is with them. -/
theorem gateOp_of_implausible_slow :
    let fl : Rounding := F64.binary64
    let ctx : TeleCtx := ⟨fl (.fin 1.455), .fin 609⟩
    let slow : TeleRecord := ⟨0, "X", .memory, 0, 1000, 100, 41860, 0, 0⟩
    let erased : TeleRecord := ⟨0, "X", .memory, 0, 0, 100, 41860, 0, 0⟩
    let ss := measuredSteadyState slow (.fin 0) ctx fl
    gateOp ss .memory slow (.fin 0) (.fin 5) (.fin 5) ctx fl = .certified ∧
      gateOp ss .memory erased (.fin 0) (.fin 5) (.fin 5) ctx fl = .certified := by
  intro fl ctx slow erased ss
  have hslow : gateOp ss .memory slow (.fin 0) (.fin 5) (.fin 5) ctx fl = .certified := by
    decide +kernel
  have herased := gateOp_of_implausible fl ss .memory slow (.fin 0) (.fin 5) (.fin 5) ctx
    (by decide +kernel)
  exact ⟨hslow, (herased.2 erased rfl rfl rfl (fun h ↦ absurd h.1 (by decide))).trans hslow⟩

/-- The first record runs at 0.1 GHz in a run at 1.455 GHz, the second one moves
100000 bytes in a nanosecond; each is certified. -/
theorem not_rejected_not_certified :
    let fl : Rounding := F64.binary64
    let ctx : TeleCtx := ⟨fl (.fin 1.455), .fin 609⟩
    let slow : TeleRecord := ⟨0, "X", .memory, 0, 1000, 100, 41860, 0, 0⟩
    let fast : TeleRecord := ⟨0, "X", .memory, 0, 1, 0, 100000, 0, 0⟩
    slow.clockPlausible (fl clockTolFrac) ctx.runClockGhz fl = false ∧
      gateOp (measuredSteadyState slow (.fin 0) ctx fl) .memory slow (.fin 0) (.fin 5) (.fin 5)
        ctx fl = .certified ∧
      fast.rooflineOk ctx.peakDramGbps fl = false ∧
      gateOp (measuredSteadyState fast (.fin 0) ctx fl) .memory fast (.fin 0) (.fin 5) (.fin 5)
        ctx fl = .certified := by
  decide +kernel

end CalxMill
