import CalxMill.Rust.Saturating

/-!
# Dependency chains

Ops that depend on one another bound a kernel by latency: `chains` independent
chains of `depth` ops share one pipe, and the run takes the larger of the
pipe's work and one chain's critical path.  A register budget limits the
chains that really run.
-/

namespace CalxMill

open Rust U32

inductive Bottleneck where
  | pipe (i : ℕ)
  | issueCap
  | memory
  | latency
  deriving DecidableEq

structure Projection where
  cycles : UInt32
  bottleneck : Bottleneck
  deriving DecidableEq

structure DepChain where
  depth : UInt32
  opLatency : UInt32

def DepChain.latencyFloor (c : DepChain) : UInt32 := satMul c.depth c.opLatency

def projectLatency (throughput : Projection) (chain : DepChain) : Projection :=
  let floor := chain.latencyFloor
  if throughput.cycles < floor then ⟨floor, .latency⟩ else throughput

def chainCycles (chains depth cycPerOp opLatency : UInt32) : Projection :=
  let totalOps := satMul chains depth
  projectLatency ⟨satMul totalOps cycPerOp, .pipe 0⟩ ⟨depth, opLatency⟩

/-- The quotient is taken on `u64`, where the product fits. -/
def chainUtilizationPct (chains depth cycPerOp opLatency : UInt32) : UInt32 :=
  let throughput := (satMul (satMul chains depth) cycPerOp).toNat
  let mii := max (chainCycles chains depth cycPerOp opLatency).cycles.toNat 1
  .ofNat (throughput * 100 / mii)

def achievableChains (regBudget baseRegisters regsPerChain : UInt32) : UInt32 :=
  satSub regBudget baseRegisters / max regsPerChain 1

structure OpTemplate where
  chains : UInt32
  depth : UInt32
  cycPerOp : UInt32
  opLatency : UInt32

namespace OpTemplate

def cycles (t : OpTemplate) : Projection := chainCycles t.chains t.depth t.cycPerOp t.opLatency

def utilizationPct (t : OpTemplate) : UInt32 :=
  chainUtilizationPct t.chains t.depth t.cycPerOp t.opLatency

def latencyBound (t : OpTemplate) : Bool := t.cycles.bottleneck = .latency

def chainsToHide (t : OpTemplate) : UInt32 := ceilDiv t.opLatency (max t.cycPerOp 1)

/-- The chains that run: what the budget sustains, up to the request. -/
def runningChains (t : OpTemplate) (regBudget baseRegisters regsPerChain : UInt32) : UInt32 :=
  max (min (achievableChains regBudget baseRegisters regsPerChain) t.chains) 1

def utilizationUnderRegisters (t : OpTemplate) (regBudget baseRegisters regsPerChain : UInt32) :
    UInt32 :=
  let ach := t.runningChains regBudget baseRegisters regsPerChain
  chainUtilizationPct ach t.depth t.cycPerOp t.opLatency

def overlapKeepsHidden (t : OpTemplate) (regBudget baseRegisters regsPerChain spend : UInt32) :
    Bool :=
  let ach := achievableChains regBudget (satAdd baseRegisters spend) regsPerChain
  t.chainsToHide ≤ ach

end OpTemplate

inductive Lane where
  | memory
  | compute
  deriving DecidableEq

structure Phase where
  cycles : UInt32
  lane : Lane

def Phase.compute (t : OpTemplate) : Phase := ⟨t.cycles.cycles, .compute⟩

structure OpComposition where
  phases : List Phase

namespace OpComposition

def serialCycles (c : OpComposition) : UInt32 :=
  c.phases.foldl (fun acc p ↦ satAdd acc p.cycles) 0

def laneCycles (c : OpComposition) (lane : Lane) : UInt32 :=
  (c.phases.filter (·.lane = lane)).foldl (fun acc p ↦ satAdd acc p.cycles) 0

def overlappedCycles (c : OpComposition) : UInt32 :=
  max (c.laneCycles .memory) (c.laneCycles .compute)

def overlappedIf (c : OpComposition) (creditable : Bool) : UInt32 :=
  if creditable then c.overlappedCycles else c.serialCycles

end OpComposition

/-! ## Utilization -/

section Utilization

variable {chains depth cycPerOp opLatency : UInt32}

/-- The pipe's work, which is not zero. -/
theorem one_le_throughput (hchains : 1 ≤ chains.toNat) (hdepth : 1 ≤ depth.toNat)
    (hcyc : 1 ≤ cycPerOp.toNat) : 1 ≤ (satMul (satMul chains depth) cycPerOp).toNat := by
  rw [toNat_satMul_satMul _ _ hcyc]
  have h : 1 ≤ chains.toNat * depth.toNat * cycPerOp.toNat :=
    Nat.mul_pos (Nat.mul_pos hchains hdepth) hcyc
  rw [max32]
  omega

theorem chainCycles_bottleneck :
    (chainCycles chains depth cycPerOp opLatency).bottleneck = .latency ↔
      (satMul (satMul chains depth) cycPerOp).toNat < (satMul depth opLatency).toNat := by
  simp only [chainCycles, projectLatency, DepChain.latencyFloor, UInt32.lt_iff_toNat_lt]
  split
  · next h => simpa using h
  · next h => simpa using h

theorem chainCycles_cycles :
    (chainCycles chains depth cycPerOp opLatency).cycles.toNat =
      max (satMul (satMul chains depth) cycPerOp).toNat (satMul depth opLatency).toNat := by
  rw [chainCycles, projectLatency, DepChain.latencyFloor]
  by_cases h : satMul (satMul chains depth) cycPerOp < satMul depth opLatency
  · have hlt := UInt32.lt_iff_toNat_lt.mp h
    rw [if_pos h, max_eq_right hlt.le]
  · have hle := Nat.le_of_not_lt (mt UInt32.lt_iff_toNat_lt.mpr h)
    rw [if_neg h, max_eq_left hle]

/-- Full utilization is a critical path that the pipe's work covers. -/
theorem chainUtilizationPct_eq_hundred
    (hpos : 1 ≤ max (satMul (satMul chains depth) cycPerOp).toNat (satMul depth opLatency).toNat) :
    chainUtilizationPct chains depth cycPerOp opLatency = 100 ↔
      (satMul depth opLatency).toNat ≤ (satMul (satMul chains depth) cycPerOp).toNat := by
  simp only [chainUtilizationPct, chainCycles_cycles]
  generalize (satMul (satMul chains depth) cycPerOp).toNat = work at hpos ⊢
  generalize (satMul depth opLatency).toNat = floor at hpos ⊢
  rw [← UInt32.toNat_inj, max_eq_left hpos, UInt32.toNat_ofNat']
  have h100 : (100 : UInt32).toNat = 100 := rfl
  by_cases h : work < floor
  · have hq : work * 100 / floor < 100 := Nat.div_lt_of_lt_mul (by omega)
    rw [max_eq_right h.le, Nat.mod_eq_of_lt (by omega)]
    omega
  · have hq : work * 100 / work = 100 := Nat.mul_div_cancel_left _ (by omega)
    rw [max_eq_left (by omega), hq]
    omega

/-- The chain count at which the latency is hidden. -/
theorem hidden_iff (hdepth : 1 ≤ depth.toNat) (hcyc : 1 ≤ cycPerOp.toNat)
    (hfloor : depth.toNat * opLatency.toNat < 2 ^ 32) :
    (satMul depth opLatency).toNat ≤ (satMul (satMul chains depth) cycPerOp).toNat ↔
      opLatency.toNat ≤ chains.toNat * cycPerOp.toNat := by
  have hle : depth.toNat * opLatency.toNat ≤ max32 := by
    rw [max32]
    omega
  have hcomm : chains.toNat * depth.toNat * cycPerOp.toNat =
      depth.toNat * (chains.toNat * cycPerOp.toNat) := by
    rw [Nat.mul_comm chains.toNat, Nat.mul_assoc]
  rw [toNat_satMul_satMul _ _ hcyc, toNat_satMul, min_eq_left hle, le_min_iff, hcomm,
    Nat.mul_le_mul_left_iff hdepth]
  exact and_iff_left hle

end Utilization

/-! ## The register gate -/

namespace OpTemplate

variable {t : OpTemplate} {regBudget baseRegisters regsPerChain spend : UInt32}

theorem toNat_achievableChains :
    (achievableChains regBudget (satAdd baseRegisters spend) regsPerChain).toNat =
      (regBudget.toNat - (baseRegisters.toNat + spend.toNat)) / max regsPerChain.toNat 1 := by
  have hbudget := toNat_le_max32 regBudget
  have hsub : regBudget.toNat - min (baseRegisters.toNat + spend.toNat) max32 =
      regBudget.toNat - (baseRegisters.toNat + spend.toNat) := by
    omega
  rw [achievableChains, UInt32.toNat_div, toNat_satSub, toNat_satAdd, toNat_max_one, hsub]

theorem overlapKeepsHidden_iff (hcyc : 1 ≤ t.cycPerOp.toNat) :
    t.overlapKeepsHidden regBudget baseRegisters regsPerChain spend = true ↔
      t.opLatency.toNat ≤
        (achievableChains regBudget (satAdd baseRegisters spend) regsPerChain).toNat *
          t.cycPerOp.toNat := by
  have hmax : (max t.cycPerOp 1).toNat = t.cycPerOp.toNat := by
    rw [toNat_max_one, max_eq_left hcyc]
  rw [overlapKeepsHidden, decide_eq_true_iff, chainsToHide, ceilDiv_le_iff (by omega), hmax]

/-- Full utilization under the budget needs enough running chains. -/
theorem utilizationUnderRegisters_eq_hundred (hdepth : 1 ≤ t.depth.toNat)
    (hcyc : 1 ≤ t.cycPerOp.toNat) (hfloor : t.depth.toNat * t.opLatency.toNat < 2 ^ 32) :
    t.utilizationUnderRegisters regBudget baseRegisters regsPerChain = 100 ↔
      t.opLatency.toNat ≤
        (t.runningChains regBudget baseRegisters regsPerChain).toNat * t.cycPerOp.toNat := by
  have hrun : 1 ≤ (t.runningChains regBudget baseRegisters regsPerChain).toNat := by
    rw [runningChains, toNat_max_one]
    exact le_max_right _ _
  have hwork := one_le_throughput hrun hdepth hcyc
  rw [utilizationUnderRegisters, chainUtilizationPct_eq_hundred (hwork.trans (le_max_left _ _)),
    hidden_iff hdepth hcyc hfloor]

/-- The gate agrees with the utilization model exactly when the chains that
the budget sustains miss the hide threshold, or the requested chains meet it:
the gate never looks at the request. -/
theorem keepsHidden_agrees_iff (t : OpTemplate)
    (regBudget baseRegisters regsPerChain spend : UInt32) (hdepth : 1 ≤ t.depth.toNat)
    (hcyc : 1 ≤ t.cycPerOp.toNat) (hfloor : t.depth.toNat * t.opLatency.toNat < 2 ^ 32) :
    (t.overlapKeepsHidden regBudget baseRegisters regsPerChain spend = true →
      t.utilizationUnderRegisters regBudget (satAdd baseRegisters spend) regsPerChain = 100) ↔
    ((regBudget.toNat - (baseRegisters.toNat + spend.toNat)) / max regsPerChain.toNat 1 *
        t.cycPerOp.toNat < t.opLatency.toNat ∨
      t.opLatency.toNat ≤ max t.chains.toNat 1 * t.cycPerOp.toNat) := by
  rw [overlapKeepsHidden_iff hcyc, utilizationUnderRegisters_eq_hundred hdepth hcyc hfloor,
    ← toNat_achievableChains]
  have hrun : (t.runningChains regBudget (satAdd baseRegisters spend) regsPerChain).toNat =
      max (min (achievableChains regBudget (satAdd baseRegisters spend) regsPerChain).toNat
        t.chains.toNat) 1 := by
    rw [runningChains, toNat_max_one, UInt32.toNat_min]
  rw [hrun]
  generalize (achievableChains regBudget (satAdd baseRegisters spend) regsPerChain).toNat = ach
  constructor
  · intro h
    by_cases hach : t.opLatency.toNat ≤ ach * t.cycPerOp.toNat
    · right
      have hle : max (min ach t.chains.toNat) 1 ≤ max t.chains.toNat 1 := by omega
      exact (h hach).trans (Nat.mul_le_mul_right _ hle)
    · left
      omega
  · rintro (h | h) hach
    · omega
    · -- the running chains are the sustained or the requested ones
      have hcases : max (min ach t.chains.toNat) 1 = max t.chains.toNat 1 ∨
          ach ≤ max (min ach t.chains.toNat) 1 := by
        omega
      rcases hcases with heq | hle
      · rw [heq]
        exact h
      · exact hach.trans (Nat.mul_le_mul_right _ hle)

/-- One chain of latency 2 on a budget for eight. -/
def oneChain : OpTemplate := ⟨1, 1, 1, 2⟩

/-- The gate credits an overlap to a recurrence that runs at half utilization,
and the composition takes the overlapped figure. -/
theorem not_keepsHidden_agrees :
    oneChain.overlapKeepsHidden 8 0 1 0 = true ∧
      oneChain.utilizationUnderRegisters 8 (satAdd 0 0) 1 = 50 ∧
        (OpComposition.mk [⟨2, .memory⟩, Phase.compute oneChain]).overlappedIf
          (oneChain.overlapKeepsHidden 8 0 1 0) = 2 := by
  decide +kernel

/-- Two chains of latency 2, requested and sustained. -/
theorem keepsHidden_agrees_twoChains :
    ((⟨2, 1, 1, 2⟩ : OpTemplate).overlapKeepsHidden 8 0 1 0 = true →
      (⟨2, 1, 1, 2⟩ : OpTemplate).utilizationUnderRegisters 8 (satAdd 0 0) 1 = 100) ↔
    (((8 : UInt32).toNat - ((0 : UInt32).toNat + (0 : UInt32).toNat)) / max (1 : UInt32).toNat 1 *
        (1 : UInt32).toNat < (2 : UInt32).toNat ∨
      (2 : UInt32).toNat ≤ max (2 : UInt32).toNat 1 * (1 : UInt32).toNat) :=
  keepsHidden_agrees_iff ⟨2, 1, 1, 2⟩ 8 0 1 0 (by decide) (by decide) (by decide)

end OpTemplate

end CalxMill
