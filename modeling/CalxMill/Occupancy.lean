import CalxMill.Lib.Capacity
import CalxMill.Rust.Saturating

/-!
# Occupancy

How many work units, or blocks of them, a substrate holds at once: the minimum
of the register limit, the local-store limit and the concurrency ceiling.  The
rounding and the products saturate at the largest word.
-/

namespace CalxMill

open Lib Rust.U32

structure Substrate where
  registerCapacity : UInt32
  registerGranularity : UInt32
  localStoreBytes : UInt32
  localStoreGranularity : UInt32
  concurrencyCeiling : UInt32
  issueCap : UInt32
  memBandwidth : UInt32

structure WorkUnit where
  registers : UInt32
  localStoreBytes : UInt32

structure Block where
  units : UInt32
  unitRegisters : UInt32
  localStoreBytes : UInt32

def roundUp (x unit : UInt32) : UInt32 :=
  if unit = 0 then x else
  let rem := x % unit
  if rem = 0 then x else satAdd x (unit - rem)

def concurrency (s : Substrate) (w : WorkUnit) : UInt32 :=
  let regPer := roundUp (max w.registers 1) s.registerGranularity
  -- both divisors are at least one
  let byReg := s.registerCapacity / regPer
  let byLocal :=
    if w.localStoreBytes = 0 ∨ s.localStoreBytes = 0 then s.concurrencyCeiling
    else
      let lsPer := max (roundUp w.localStoreBytes s.localStoreGranularity) 1
      s.localStoreBytes / lsPer
  min (min byReg byLocal) s.concurrencyCeiling

def blocksPerInstance (s : Substrate) (b : Block) : UInt32 :=
  if b.units = 0 then 0 else
  let regPerUnit := roundUp (max b.unitRegisters 1) s.registerGranularity
  let regPerBlock := satMul regPerUnit b.units
  let byReg := s.registerCapacity / regPerBlock
  let byLocal :=
    if b.localStoreBytes = 0 ∨ s.localStoreBytes = 0 then .ofNat max32
    else
      let lsPer := max (roundUp b.localStoreBytes s.localStoreGranularity) 1
      s.localStoreBytes / lsPer
  let byCeiling := s.concurrencyCeiling / b.units
  min (min byReg byLocal) byCeiling

def cooperativeFits (s : Substrate) (b : Block) (gridBlocks instances : UInt32) : Bool :=
  satMul (blocksPerInstance s b) instances ≥ gridBlocks

/-! ## The rounding -/

/-- The rounding gives the least multiple, or the largest word when that
multiple does not fit a word. -/
theorem toNat_roundUp (x unit : UInt32) :
    (roundUp x unit).toNat = min (leastMultiple unit.toNat x.toNat) max32 := by
  by_cases hunit : unit = 0
  · subst hunit
    rw [roundUp, if_pos rfl, UInt32.toNat_zero, leastMultiple_zero, min_eq_left (toNat_le_max32 x)]
  · have hunit0 : unit.toNat ≠ 0 := fun h ↦ hunit (UInt32.toNat_inj.mp h)
    have hrem : x % unit = 0 ↔ x.toNat % unit.toNat = 0 := by
      rw [← UInt32.toNat_inj, UInt32.toNat_mod, UInt32.toNat_zero]
    have hlt : x.toNat % unit.toNat < unit.toNat := Nat.mod_lt _ (Nat.pos_of_ne_zero hunit0)
    have hle : x % unit ≤ unit := by
      rw [UInt32.le_iff_toNat_le, UInt32.toNat_mod]
      exact hlt.le
    rw [roundUp, if_neg hunit, leastMultiple_eq_add hunit0]
    by_cases hmod : x % unit = 0
    · rw [if_pos hmod, if_pos (hrem.mp hmod), min_eq_left (toNat_le_max32 x)]
    · rw [if_neg hmod, if_neg (mt hrem.mpr hmod), toNat_satAdd, UInt32.toNat_sub_of_le _ _ hle,
        UInt32.toNat_mod]

theorem toNat_max_roundUp {x : UInt32} (hx : x ≠ 0) (unit : UInt32) :
    (max (roundUp x unit) 1).toNat = min (leastMultiple unit.toNat x.toNat) max32 := by
  have hpos : 1 ≤ x.toNat := Nat.one_le_iff_ne_zero.mpr fun h ↦ hx (UInt32.toNat_inj.mp h)
  have hle := le_leastMultiple unit.toNat x.toNat
  have hmax := toNat_le_max32 x
  rw [toNat_max_one, toNat_roundUp]
  omega

/-- A demand capped at the largest word: a capacity below that word holds as
many as of the exact demand. -/
theorem mul_min_max32_le_iff {n cap demand : ℕ} (hcap : cap < max32) :
    n * min demand max32 ≤ cap ↔ n * demand ≤ cap := by
  rcases le_total demand max32 with hle | hle
  · rw [min_eq_left hle]
  · rw [min_eq_right hle]
    rcases Nat.eq_zero_or_pos n with rfl | hn
    · rw [Nat.zero_mul, Nat.zero_mul]
    · have hword := Nat.le_mul_of_pos_left max32 hn
      have hexact := Nat.mul_le_mul_left n hle
      exact iff_of_false (by omega) (by omega)

/-! ## The optimum -/

/-- Registers one work unit takes, in whole allocation units. -/
noncomputable def WorkUnit.registerDemand (w : WorkUnit) (s : Substrate) : ℕ :=
  leastMultiple s.registerGranularity.toNat (max w.registers.toNat 1)

/-- Local store one work unit takes, in whole allocation units. -/
noncomputable def WorkUnit.localStoreDemand (w : WorkUnit) (s : Substrate) : ℕ :=
  leastMultiple s.localStoreGranularity.toNat w.localStoreBytes.toNat

/-- `n` work units run at once. -/
structure WorkUnit.Fits (w : WorkUnit) (s : Substrate) (n : ℕ) : Prop where
  ceiling : n ≤ s.concurrencyCeiling.toNat
  registers : n * w.registerDemand s ≤ s.registerCapacity.toNat
  localStore : w.localStoreBytes ≠ 0 → s.localStoreBytes ≠ 0 →
    n * w.localStoreDemand s ≤ s.localStoreBytes.toNat

/-- A demand that its capacity covers, or that no word holds against a capacity
of the largest word. -/
def Admitted (demand capacity : ℕ) : Prop :=
  demand ≤ capacity ∨ (max32 < demand ∧ capacity = max32)

/-- Every demand of one work unit is admitted, and one of them fits no word. -/
structure WorkUnit.OverflowAdmitted (w : WorkUnit) (s : Substrate) : Prop where
  ceiling : 1 ≤ s.concurrencyCeiling.toNat
  registers : Admitted (w.registerDemand s) s.registerCapacity.toNat
  localStore : w.localStoreBytes ≠ 0 → s.localStoreBytes ≠ 0 →
    Admitted (w.localStoreDemand s) s.localStoreBytes.toNat
  overflow : max32 < w.registerDemand s ∨
    (w.localStoreBytes ≠ 0 ∧ s.localStoreBytes ≠ 0 ∧ max32 < w.localStoreDemand s)

theorem admitted_iff {demand capacity : ℕ} (hcap : capacity ≤ max32) :
    Admitted demand capacity ↔ min demand max32 ≤ capacity := by
  rw [Admitted]
  omega

/-- The computed figure against demands capped at the largest word. -/
theorem le_concurrency_iff {s : Substrate} {w : WorkUnit} {n : ℕ} :
    n ≤ (concurrency s w).toNat ↔ n ≤ s.concurrencyCeiling.toNat ∧
      n * min (w.registerDemand s) max32 ≤ s.registerCapacity.toNat ∧
      (w.localStoreBytes ≠ 0 → s.localStoreBytes ≠ 0 →
        n * min (w.localStoreDemand s) max32 ≤ s.localStoreBytes.toNat) := by
  have hreg : n ≤ (s.registerCapacity / roundUp (max w.registers 1) s.registerGranularity).toNat ↔
      n * min (w.registerDemand s) max32 ≤ s.registerCapacity.toNat := by
    have hle : 1 ≤ w.registerDemand s := (le_max_right _ _).trans (le_leastMultiple _ _)
    have hpos : 0 < min (w.registerDemand s) max32 := lt_min hle (by decide)
    rw [UInt32.toNat_div, toNat_roundUp, toNat_max_one, ← WorkUnit.registerDemand,
      Nat.le_div_iff_mul_le hpos]
  rw [concurrency, UInt32.toNat_min, UInt32.toNat_min, le_min_iff, le_min_iff, hreg]
  by_cases hlim : w.localStoreBytes = 0 ∨ s.localStoreBytes = 0
  · rw [if_pos hlim]
    constructor
    · rintro ⟨⟨hreg, -⟩, hceiling⟩
      exact ⟨hceiling, hreg, fun hw hs ↦ absurd hlim (not_or.mpr ⟨hw, hs⟩)⟩
    · rintro ⟨hceiling, hreg, -⟩
      exact ⟨⟨hreg, hceiling⟩, hceiling⟩
  · obtain ⟨hw, hs⟩ := not_or.mp hlim
    have hle : 1 ≤ w.localStoreDemand s :=
      (Nat.one_le_iff_ne_zero.mpr fun h ↦ hw (UInt32.toNat_inj.mp h)).trans (le_leastMultiple _ _)
    have hpos : 0 < min (w.localStoreDemand s) max32 := lt_min hle (by decide)
    rw [if_neg hlim, UInt32.toNat_div, toNat_max_roundUp hw, ← WorkUnit.localStoreDemand,
      Nat.le_div_iff_mul_le hpos]
    constructor
    · rintro ⟨⟨hreg, hstore⟩, hceiling⟩
      exact ⟨hceiling, hreg, fun _ _ ↦ hstore⟩
    · rintro ⟨hceiling, hreg, hstore⟩
      exact ⟨⟨hreg, hstore hw hs⟩, hceiling⟩

/-- A unit that only the saturation admits is counted although it does not fit. -/
theorem not_isGreatest_of_overflowAdmitted {s : Substrate} {w : WorkUnit}
    (h : w.OverflowAdmitted s) : ¬ IsGreatest {n | w.Fits s n} (concurrency s w).toNat := by
  intro hgreatest
  have hregs := (admitted_iff (toNat_le_max32 s.registerCapacity)).mp h.registers
  have hone : 1 ≤ (concurrency s w).toNat := by
    refine le_concurrency_iff.mpr ⟨h.ceiling, ?_, fun hw hs ↦ ?_⟩
    · rwa [Nat.one_mul]
    · rw [Nat.one_mul]
      exact (admitted_iff (toNat_le_max32 s.localStoreBytes)).mp (h.localStore hw hs)
  obtain ⟨-, hregisters, hstore⟩ := hgreatest.1
  have hcap := toNat_le_max32 s.registerCapacity
  have hle := Nat.le_mul_of_pos_left (w.registerDemand s) hone
  rcases h.overflow with hover | ⟨hw, hs, hover⟩
  · omega
  · have hcapStore := toNat_le_max32 s.localStoreBytes
    have hleStore := Nat.le_mul_of_pos_left (w.localStoreDemand s) hone
    have hfit := hstore hw hs
    omega

/-- The figure is the greatest number of work units that fit, unless a unit is
admitted by the saturation alone. -/
theorem concurrency_isGreatest_iff (s : Substrate) (w : WorkUnit) :
    IsGreatest {n | w.Fits s n} (concurrency s w).toNat ↔ ¬ w.OverflowAdmitted s := by
  constructor
  · exact fun hgreatest hover ↦ not_isGreatest_of_overflowAdmitted hover hgreatest
  · intro hover
    have hfits : ∀ n, n ≤ (concurrency s w).toNat → w.Fits s n := by
      intro n hn
      obtain ⟨hceiling, hregisters, hstore⟩ := le_concurrency_iff.mp hn
      rcases Nat.eq_zero_or_pos n with rfl | hpos
      · exact ⟨hceiling, by simp, fun _ _ ↦ by simp⟩
      have hregs : Admitted (w.registerDemand s) s.registerCapacity.toNat :=
        (admitted_iff (toNat_le_max32 _)).mpr ((Nat.le_mul_of_pos_left _ hpos).trans hregisters)
      have hlocal : w.localStoreBytes ≠ 0 → s.localStoreBytes ≠ 0 →
          Admitted (w.localStoreDemand s) s.localStoreBytes.toNat := fun hw hs ↦
        (admitted_iff (toNat_le_max32 _)).mpr
          ((Nat.le_mul_of_pos_left _ hpos).trans (hstore hw hs))
      -- every demand is admitted, so none of them leaves the word
      have hword := mt (WorkUnit.OverflowAdmitted.mk (hpos.trans_le hceiling) hregs hlocal) hover
      obtain ⟨hregWord, hstoreWord⟩ := not_or.mp hword
      refine ⟨hceiling, ?_, fun hw hs ↦ ?_⟩
      · rwa [min_eq_left (not_lt.mp hregWord)] at hregisters
      · have hle : w.localStoreDemand s ≤ max32 := not_lt.mp fun h ↦ hstoreWord ⟨hw, hs, h⟩
        have hfit := hstore hw hs
        rwa [min_eq_left hle] at hfit
    refine ⟨hfits _ le_rfl, fun n hn ↦ le_concurrency_iff.mpr ⟨hn.ceiling, ?_, fun hw hs ↦ ?_⟩⟩
    · exact (Nat.mul_le_mul_left n (min_le_left _ _)).trans hn.registers
    · exact (Nat.mul_le_mul_left n (min_le_left _ _)).trans (hn.localStore hw hs)

/-- Registers of `2 ^ 32 - 1` round up to `2 ^ 32`, which no capacity covers;
the saturated figure says that one unit fits. -/
theorem not_concurrency_isGreatest :
    ¬ IsGreatest {n | WorkUnit.Fits ⟨.ofNat max32, 0⟩ ⟨.ofNat max32, 256, 0, 0, 32, 4, 64⟩ n}
      (concurrency ⟨.ofNat max32, 256, 0, 0, 32, 4, 64⟩ ⟨.ofNat max32, 0⟩).toNat := by
  have hdemand : WorkUnit.registerDemand ⟨.ofNat max32, 0⟩
      ⟨.ofNat max32, 256, 0, 0, 32, 4, 64⟩ = 2 ^ 32 := by
    rw [WorkUnit.registerDemand, leastMultiple_eq_add (by decide)]
    decide
  apply not_isGreatest_of_overflowAdmitted
  refine ⟨by decide, Or.inr ⟨?_, by decide⟩, fun hw ↦ absurd rfl hw, Or.inl ?_⟩
  · rw [hdemand]
    decide
  · rw [hdemand]
    decide

/-! ## Resident blocks -/

/-- Registers one unit takes, in whole allocation units. -/
noncomputable def Block.registerDemand (b : Block) (s : Substrate) : ℕ :=
  leastMultiple s.registerGranularity.toNat (max b.unitRegisters.toNat 1)

/-- Local store one block takes, in whole allocation units. -/
noncomputable def Block.localStoreDemand (b : Block) (s : Substrate) : ℕ :=
  leastMultiple s.localStoreGranularity.toNat b.localStoreBytes.toNat

/-- `k` blocks are resident on one instance at once. -/
structure Block.Resident (b : Block) (s : Substrate) (k : ℕ) : Prop where
  ceiling : k * b.units.toNat ≤ s.concurrencyCeiling.toNat
  registers : k * b.units.toNat * b.registerDemand s ≤ s.registerCapacity.toNat
  localStore : b.localStoreBytes ≠ 0 → s.localStoreBytes ≠ 0 →
    k * b.localStoreDemand s ≤ s.localStoreBytes.toNat

theorem Block.one_le_registerDemand (b : Block) (s : Substrate) : 1 ≤ b.registerDemand s :=
  (le_max_right _ _).trans (le_leastMultiple _ _)

theorem toNat_regPerBlock (s : Substrate) (b : Block) (hunits : 1 ≤ b.units.toNat) :
    (satMul (roundUp (max b.unitRegisters 1) s.registerGranularity) b.units).toNat =
      min (b.registerDemand s * b.units.toNat) max32 := by
  rw [toNat_satMul, toNat_roundUp, toNat_max_one, min_mul_max32 _ hunits, Block.registerDemand]

/-- The computed figure against demands capped at the largest word. -/
theorem le_blocksPerInstance_capped_iff {s : Substrate} {b : Block} (hunits : 1 ≤ b.units.toNat)
    {k : ℕ} : k ≤ (blocksPerInstance s b).toNat ↔ k * b.units.toNat ≤ s.concurrencyCeiling.toNat ∧
      k * min (b.registerDemand s * b.units.toNat) max32 ≤ s.registerCapacity.toNat ∧
      (b.localStoreBytes ≠ 0 → s.localStoreBytes ≠ 0 →
        k * min (b.localStoreDemand s) max32 ≤ s.localStoreBytes.toNat) := by
  have hunits0 : b.units ≠ 0 := by
    intro h
    rw [h, UInt32.toNat_zero] at hunits
    omega
  have hdemand : 0 < min (b.registerDemand s * b.units.toNat) max32 :=
    lt_min (Nat.mul_pos (b.one_le_registerDemand s) hunits) (by decide)
  have hreg : k ≤ (s.registerCapacity /
        satMul (roundUp (max b.unitRegisters 1) s.registerGranularity) b.units).toNat ↔
      k * min (b.registerDemand s * b.units.toNat) max32 ≤ s.registerCapacity.toNat := by
    rw [UInt32.toNat_div, toNat_regPerBlock s b hunits, Nat.le_div_iff_mul_le hdemand]
  have hceiling : k ≤ (s.concurrencyCeiling / b.units).toNat ↔
      k * b.units.toNat ≤ s.concurrencyCeiling.toNat := by
    rw [UInt32.toNat_div, Nat.le_div_iff_mul_le hunits]
  rw [blocksPerInstance, if_neg hunits0, UInt32.toNat_min, UInt32.toNat_min, le_min_iff,
    le_min_iff, hreg, hceiling]
  by_cases hlim : b.localStoreBytes = 0 ∨ s.localStoreBytes = 0
  · rw [if_pos hlim]
    constructor
    · rintro ⟨⟨hreg, -⟩, hceiling⟩
      exact ⟨hceiling, hreg, fun hb hs ↦ absurd hlim (not_or.mpr ⟨hb, hs⟩)⟩
    · rintro ⟨hceil, hreg, -⟩
      refine ⟨⟨hreg, ?_⟩, hceil⟩
      rw [toNat_ofNat_of_le le_rfl]
      exact (hceiling.mpr hceil).trans (toNat_le_max32 _)
  · obtain ⟨hb, hs⟩ := not_or.mp hlim
    have hle : 1 ≤ b.localStoreDemand s :=
      (Nat.one_le_iff_ne_zero.mpr fun h ↦ hb (UInt32.toNat_inj.mp h)).trans (le_leastMultiple _ _)
    have hpos : 0 < min (b.localStoreDemand s) max32 := lt_min hle (by decide)
    rw [if_neg hlim, UInt32.toNat_div, toNat_max_roundUp hb, ← Block.localStoreDemand,
      Nat.le_div_iff_mul_le hpos]
    constructor
    · rintro ⟨⟨hreg, hstore⟩, hceiling⟩
      exact ⟨hceiling, hreg, fun _ _ ↦ hstore⟩
    · rintro ⟨hceiling, hreg, hstore⟩
      exact ⟨⟨hreg, hstore hb hs⟩, hceiling⟩

theorem le_blocksPerInstance_iff {s : Substrate} {b : Block}
    (hregs : s.registerCapacity.toNat < max32) (hlocal : s.localStoreBytes.toNat < max32)
    (hunits : 1 ≤ b.units.toNat) {k : ℕ} :
    k ≤ (blocksPerInstance s b).toNat ↔ b.Resident s k := by
  rw [le_blocksPerInstance_capped_iff hunits, mul_min_max32_le_iff hregs,
    mul_min_max32_le_iff hlocal, Nat.mul_comm (b.registerDemand s), ← Nat.mul_assoc]
  exact ⟨fun ⟨hceiling, hreg, hstore⟩ ↦ ⟨hceiling, hreg, hstore⟩,
    fun h ↦ ⟨h.ceiling, h.registers, h.localStore⟩⟩

/-- The residency test is the existence of a distribution of the grid over the
instances. -/
theorem cooperativeFits_iff {s : Substrate} {b : Block} (gridBlocks instances : UInt32)
    (hregs : s.registerCapacity.toNat < 2 ^ 32 - 1) (hlocal : s.localStoreBytes.toNat < 2 ^ 32 - 1)
    (hunits : 1 ≤ b.units.toNat) :
    cooperativeFits s b gridBlocks instances = true ↔
      ∃ k : Fin instances.toNat → ℕ, ∑ i, k i = gridBlocks.toNat ∧ ∀ i, b.Resident s (k i) := by
  have hfits : cooperativeFits s b gridBlocks instances = true ↔
      gridBlocks.toNat ≤ instances.toNat * (blocksPerInstance s b).toNat := by
    have hgrid := toNat_le_max32 gridBlocks
    rw [cooperativeFits, decide_eq_true_eq, ge_iff_le, UInt32.le_iff_toNat_le, toNat_satMul,
      le_min_iff, Nat.mul_comm]
    exact and_iff_left hgrid
  simp only [hfits, ← exists_sum_eq_iff, le_blocksPerInstance_iff hregs hlocal hunits]

def tu102Sm : Substrate where
  registerCapacity := 65536
  registerGranularity := 256
  localStoreBytes := 65536
  localStoreGranularity := 128
  concurrencyCeiling := 32
  issueCap := 4
  memBandwidth := 64

/-- One block of 12 warps fits each of the 72 instances at 168 registers a
thread; two blocks each do not. -/
theorem cooperativeFits_iff_tu102 :
    (∃ k : Fin 72 → ℕ, ∑ i, k i = 72 ∧
      ∀ i, Block.Resident ⟨12, 168 * 32, 60 * 1024⟩ tu102Sm (k i)) ∧
    ¬ ∃ k : Fin 72 → ℕ, ∑ i, k i = 144 ∧
      ∀ i, Block.Resident ⟨12, 168 * 32, 60 * 1024⟩ tu102Sm (k i) := by
  constructor
  · exact (cooperativeFits_iff 72 72 (by decide) (by decide) (by decide)).mp (by decide +kernel)
  · exact mt (cooperativeFits_iff 144 72 (by decide) (by decide) (by decide)).mpr
      (by decide +kernel)

end CalxMill
