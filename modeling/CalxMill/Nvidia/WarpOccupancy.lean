import CalxMill.Nvidia.Ptxas
import CalxMill.Occupancy
import CalxMill.Rust.Checked

/-!
# Warps and blocks of a kernel

A kernel's resource report becomes the demand of one warp, with a share of its
block's shared memory, and the demand of the block.  The share is rounded up
once for each warp, the block's memory once for the block, so the two residency
figures agree only where the rounded shares fit.
-/

namespace CalxMill

open Lib Rust.U32

/-! ## Shares of a block -/

section Shares

variable {s : Substrate} {w : WorkUnit} {b : Block}

/-- The units of every resident number of blocks find room for their shares. -/
def Block.SharesFit (b : Block) (s : Substrate) : Prop :=
  b.localStoreBytes ≠ 0 → s.localStoreBytes ≠ 0 → ∀ k, b.Resident s k →
    k * b.units.toNat * leastMultiple s.localStoreGranularity.toNat
      (b.localStoreBytes.toNat ⌈/⌉ b.units.toNat) ≤ s.localStoreBytes.toNat

theorem share_eq_zero_iff (hunits : 1 ≤ b.units.toNat) :
    ceilDiv b.localStoreBytes b.units = 0 ↔ b.localStoreBytes = 0 := by
  rw [← UInt32.le_zero_iff, ceilDiv_le_iff hunits, UInt32.toNat_zero, Nat.zero_mul, Nat.le_zero,
    ← UInt32.toNat_inj, UInt32.toNat_zero]

/-- The resident blocks' units run at once if and only if their shares fit. -/
theorem units_mul_le_concurrency_iff (hregs : s.registerCapacity.toNat < max32)
    (hlocal : s.localStoreBytes.toNat < max32) (hunits : 1 ≤ b.units.toNat)
    (hregisters : w.registers = b.unitRegisters)
    (hshare : w.localStoreBytes = ceilDiv b.localStoreBytes b.units) :
    b.units.toNat * (blocksPerInstance s b).toNat ≤ (concurrency s w).toNat ↔ b.SharesFit s := by
  have hresident : b.Resident s (blocksPerInstance s b).toNat :=
    (le_blocksPerInstance_iff hregs hlocal hunits).mp le_rfl
  have hdemand : w.registerDemand s = b.registerDemand s := by
    rw [WorkUnit.registerDemand, hregisters, Block.registerDemand]
  have hstore : w.localStoreDemand s = leastMultiple s.localStoreGranularity.toNat
      (b.localStoreBytes.toNat ⌈/⌉ b.units.toNat) := by
    rw [WorkUnit.localStoreDemand, hshare, toNat_ceilDiv]
  have hzero : w.localStoreBytes ≠ 0 ↔ b.localStoreBytes ≠ 0 := by
    rw [hshare]
    exact not_congr (share_eq_zero_iff hunits)
  rw [le_concurrency_iff, mul_min_max32_le_iff hregs, mul_min_max32_le_iff hlocal, hdemand, hstore,
    hzero, Nat.mul_comm b.units.toNat]
  constructor
  · rintro ⟨-, -, hfit⟩ hb hs k hk
    have hle : k ≤ (blocksPerInstance s b).toNat :=
      (le_blocksPerInstance_iff hregs hlocal hunits).mpr hk
    apply (Nat.mul_le_mul_right _ _).trans (hfit hb hs)
    exact Nat.mul_le_mul_right _ hle
  · intro hfit
    exact ⟨hresident.ceiling, hresident.registers, fun hb hs ↦ hfit hb hs _ hresident⟩

end Shares

namespace Nvidia

open Rust

def warpsPerBlock (blockThreads : UInt32) : UInt32 := max (ceilDiv (max blockThreads 1) 32) 1

def workUnit (usage : KernelUsage) (blockThreads : UInt32) : Exec Str WorkUnit := do
  let registers ← mulU32 usage.registers.toNat 32
  pure ⟨.ofNat registers, ceilDiv usage.smemBytes (warpsPerBlock blockThreads)⟩

def block (usage : KernelUsage) (blockThreads : UInt32) (smemBytes : Option UInt32) :
    Exec Str Block := do
  let unitRegisters ← mulU32 usage.registers.toNat 32
  pure ⟨warpsPerBlock blockThreads, .ofNat unitRegisters, smemBytes.getD usage.smemBytes⟩

theorem one_le_warpsPerBlock (blockThreads : UInt32) : 1 ≤ (warpsPerBlock blockThreads).toNat := by
  rw [warpsPerBlock, toNat_max_one]
  exact le_max_right _ _

section Folds

variable {usage : KernelUsage} {blockThreads : UInt32}

theorem mulU32_registers (hregs : usage.registers.toNat * 32 < 2 ^ 32) :
    mulU32 usage.registers.toNat 32 = .ok (usage.registers.toNat * 32) :=
  checked_eq_ok.mpr ⟨hregs, rfl⟩

theorem workUnit_eq (hregs : usage.registers.toNat * 32 < 2 ^ 32) :
    workUnit usage blockThreads = .ok ⟨.ofNat (usage.registers.toNat * 32),
      ceilDiv usage.smemBytes (warpsPerBlock blockThreads)⟩ := by
  rw [workUnit, mulU32_registers hregs]
  rfl

theorem block_eq (smemBytes : Option UInt32) (hregs : usage.registers.toNat * 32 < 2 ^ 32) :
    block usage blockThreads smemBytes = .ok ⟨warpsPerBlock blockThreads,
      .ofNat (usage.registers.toNat * 32), smemBytes.getD usage.smemBytes⟩ := by
  rw [block, mulU32_registers hregs]
  rfl

end Folds

/-- The printed occupancy covers the printed blocks if and only if the rounded
shares of the blocks' warps fit. -/
theorem occupancy_covers_blocks_iff (usage : KernelUsage) (blockThreads : UInt32)
    (hregs : usage.registers.toNat * 32 < 2 ^ 32) :
    ∃ w b, workUnit usage blockThreads = .ok w ∧ block usage blockThreads none = .ok b ∧
      (b.units.toNat * (blocksPerInstance tu102Sm b).toNat ≤ (concurrency tu102Sm w).toNat ↔
        b.SharesFit tu102Sm) := by
  refine ⟨_, _, workUnit_eq hregs, block_eq none hregs, ?_⟩
  exact units_mul_le_concurrency_iff (by decide) (by decide) (one_le_warpsPerBlock blockThreads)
    rfl rfl

/-- A kernel of 16 KiB of shared memory, launched with seven warps a block. -/
def sharedTile : KernelUsage := ⟨"tile", "sm_75", 32, 1, 16384, [], 0, 0, 0, 0⟩

theorem occupancy_covers_blocks_sharedTile :
    ∃ w b, workUnit sharedTile 224 = .ok w ∧ block sharedTile 224 none = .ok b ∧
      (b.units.toNat * (blocksPerInstance tu102Sm b).toNat ≤ (concurrency tu102Sm w).toNat ↔
        b.SharesFit tu102Sm) :=
  occupancy_covers_blocks_iff sharedTile 224 (by decide)

/-- Four blocks of seven warps are resident, and the occupancy is twenty-six. -/
theorem not_occupancy_covers_blocks :
    ¬ ∀ (usage : KernelUsage) (blockThreads : UInt32) (w : WorkUnit) (b : Block),
      usage.registers.toNat * 32 < 2 ^ 32 → workUnit usage blockThreads = .ok w →
        block usage blockThreads none = .ok b →
          b.units.toNat * (blocksPerInstance tu102Sm b).toNat ≤ (concurrency tu102Sm w).toNat := by
  intro h
  have hregs : sharedTile.registers.toNat * 32 < 2 ^ 32 := by decide
  have hle := h sharedTile 224 _ _ hregs (workUnit_eq hregs) (block_eq none hregs)
  exact absurd hle (by decide +kernel)

end Nvidia

end CalxMill
