import CalxMill.Latency
import Mathlib.Algebra.Order.Floor.Semifield
import Mathlib.Data.Rat.Floor

/-!
# Laws of the latency model

The hide threshold, the latency bound and the utilization describe one ratio,
`C * R / L`, as long as the critical path fits a word.  Registers that are
spent on anything but chains never raise the utilization.
-/

namespace CalxMill

open Rust U32

/-! ## The utilization as a percentage -/

/-- A share of a maximum grows with the share. -/
theorem percent_mono {x y : ℕ} (h : x ≤ y) (floor : ℕ) :
    x * 100 / max (max x floor) 1 ≤ y * 100 / max (max y floor) 1 := by
  rcases Nat.eq_zero_or_pos y with rfl | hy
  · obtain rfl := Nat.le_zero.mp h
    exact le_rfl
  · rcases le_total y floor with hfloor | hfloor
    · rw [max_eq_right hfloor, max_eq_right (h.trans hfloor)]
      exact Nat.div_le_div_right (Nat.mul_le_mul_right 100 h)
    · have hfull : y * 100 / max (max y floor) 1 = 100 := by
        rw [max_eq_left hfloor, max_eq_left hy, Nat.mul_div_cancel_left _ hy]
      rw [hfull]
      apply Nat.div_le_of_le_mul
      exact Nat.mul_le_mul_right 100 ((le_max_left _ _).trans (le_max_left _ _))

theorem percent_le (x floor : ℕ) : x * 100 / max (max x floor) 1 ≤ 100 := by
  apply Nat.div_le_of_le_mul
  exact Nat.mul_le_mul_right 100 ((le_max_left _ _).trans (le_max_left _ _))

section Utilization

variable {chains chains' depth cycPerOp opLatency : UInt32}

theorem toNat_chainUtilizationPct : (chainUtilizationPct chains depth cycPerOp opLatency).toNat =
    (satMul (satMul chains depth) cycPerOp).toNat * 100 /
      max (max (satMul (satMul chains depth) cycPerOp).toNat (satMul depth opLatency).toNat) 1 := by
  have hle := percent_le (satMul (satMul chains depth) cycPerOp).toNat
    (satMul depth opLatency).toNat
  simp only [chainUtilizationPct, chainCycles_cycles]
  rw [toNat_ofNat_of_le (hle.trans (by decide))]

/-- More chains never lower the utilization. -/
theorem chainUtilizationPct_mono (h : chains ≤ chains') :
    chainUtilizationPct chains depth cycPerOp opLatency ≤
      chainUtilizationPct chains' depth cycPerOp opLatency := by
  rw [UInt32.le_iff_toNat_le, toNat_chainUtilizationPct, toNat_chainUtilizationPct]
  apply percent_mono
  rw [UInt32.le_iff_toNat_le] at h
  simp only [toNat_satMul]
  have hops : min (chains.toNat * depth.toNat) max32 ≤ min (chains'.toNat * depth.toNat) max32 :=
    min_le_min_right _ (Nat.mul_le_mul_right _ h)
  exact min_le_min_right _ (Nat.mul_le_mul_right _ hops)

theorem chainUtilizationPct_le : chainUtilizationPct chains depth cycPerOp opLatency ≤ 100 := by
  rw [UInt32.le_iff_toNat_le, toNat_chainUtilizationPct]
  exact percent_le _ _

end Utilization

/-! ## The register coupling -/

section Coupling

variable {budget budget' base base' : UInt32} (perChain : UInt32)

theorem achievableChains_mono (hbudget : budget ≤ budget') (hbase : base' ≤ base) :
    achievableChains budget base perChain ≤ achievableChains budget' base' perChain := by
  rw [UInt32.le_iff_toNat_le] at hbudget hbase ⊢
  rw [achievableChains, achievableChains, UInt32.toNat_div, UInt32.toNat_div, toNat_satSub,
    toNat_satSub]
  exact Nat.div_le_div_right (by omega)

theorem OpTemplate.runningChains_mono (t : OpTemplate) (hbudget : budget ≤ budget')
    (hbase : base' ≤ base) :
    t.runningChains budget base perChain ≤ t.runningChains budget' base' perChain := by
  have h := UInt32.le_iff_toNat_le.mp (achievableChains_mono perChain hbudget hbase)
  rw [UInt32.le_iff_toNat_le, runningChains, runningChains, toNat_max_one, toNat_max_one,
    UInt32.toNat_min, UInt32.toNat_min]
  exact max_le_max_right 1 (min_le_min_right _ h)

end Coupling

/-- Registers that are spent, or not granted, only ever cost. -/
structure OpTemplate.RegisterCoupled (t : OpTemplate) : Prop where
  base : ∀ budget base base' perChain, base ≤ base' →
    t.utilizationUnderRegisters budget base' perChain ≤
      t.utilizationUnderRegisters budget base perChain
  budget : ∀ budget budget' base perChain, budget ≤ budget' →
    t.utilizationUnderRegisters budget base perChain ≤
      t.utilizationUnderRegisters budget' base perChain
  range : ∀ budget base perChain, t.utilizationUnderRegisters budget base perChain ≤ 100
  request : 1 ≤ t.chains → ∀ budget base perChain,
    t.utilizationUnderRegisters budget base perChain ≤ t.utilizationPct
  overlap : ∀ budget base perChain spend spend', spend ≤ spend' →
    t.overlapKeepsHidden budget base perChain spend = false →
      t.overlapKeepsHidden budget base perChain spend' = false

theorem registerCoupled (t : OpTemplate) : t.RegisterCoupled where
  base budget base base' perChain h :=
    chainUtilizationPct_mono (t.runningChains_mono perChain (UInt32.le_refl _) h)
  budget budget budget' base perChain h :=
    chainUtilizationPct_mono (t.runningChains_mono perChain h (UInt32.le_refl _))
  range budget base perChain := chainUtilizationPct_le
  request hchains budget base perChain := by
    apply chainUtilizationPct_mono
    rw [UInt32.le_iff_toNat_le] at hchains ⊢
    rw [OpTemplate.runningChains, toNat_max_one, UInt32.toNat_min]
    exact max_le (min_le_right _ _) hchains
  overlap budget base perChain spend spend' h hlost := by
    have hspend : satAdd base spend ≤ satAdd base spend' := by
      rw [UInt32.le_iff_toNat_le] at h ⊢
      rw [toNat_satAdd, toNat_satAdd]
      exact min_le_min_right _ (Nat.add_le_add_left h _)
    have hchains := achievableChains_mono perChain (UInt32.le_refl budget) hspend
    rw [OpTemplate.overlapKeepsHidden, decide_eq_false_iff_not] at hlost ⊢
    exact fun hkeeps ↦ hlost (UInt32.le_trans hkeeps hchains)

/-! ## The hide threshold -/

namespace OpTemplate

/-- `C * R`, the latency that the chains hide. -/
def cover (t : OpTemplate) : ℕ := t.chains.toNat * t.cycPerOp.toNat

/-- The percentage of the peak that `min(1, C*R/L)` stands for, rounded down. -/
def exactPct (t : OpTemplate) : ℕ := ⌊100 * min 1 ((t.cover : ℚ) / t.opLatency.toNat)⌋₊

/-- The bound, the threshold and the utilization are those of `C*R/L`. -/
structure Coherent (t : OpTemplate) : Prop where
  bound : t.latencyBound = true ↔ t.chains < t.chainsToHide
  utilization : 1 ≤ t.opLatency → t.utilizationPct.toNat = t.exactPct
  full : 1 ≤ t.opLatency → (t.utilizationPct = 100 ↔ t.latencyBound = false)

/-- The critical path fits a word, or is hidden, or its word does not show in
the percentage. -/
def PathHarmless (t : OpTemplate) : Prop :=
  t.depth.toNat * t.opLatency.toNat < 2 ^ 32 ∨ t.opLatency.toNat ≤ t.cover ∨
    (t.depth.toNat * t.cover < max32 ∧
      100 * (t.depth.toNat * t.cover) / max32 = 100 * t.cover / t.opLatency.toNat)

variable {t : OpTemplate}

theorem exactPct_eq : t.exactPct = min 100 (100 * t.cover / t.opLatency.toNat) := by
  have hscale : 100 * min 1 ((t.cover : ℚ) / t.opLatency.toNat) =
      min 100 (((100 * t.cover : ℕ) : ℚ) / (t.opLatency.toNat : ℕ)) := by
    rw [mul_min_of_nonneg _ _ (by norm_num)]
    push_cast
    rw [mul_one, mul_div_assoc]
  rw [exactPct, hscale, Nat.floor_mono.map_min, Nat.floor_div_eq_div]
  norm_num

theorem lt_chainsToHide_iff (hcyc : 1 ≤ t.cycPerOp.toNat) :
    t.chains < t.chainsToHide ↔ t.cover < t.opLatency.toNat := by
  have hmax : (max t.cycPerOp 1).toNat = t.cycPerOp.toNat := by
    rw [toNat_max_one, max_eq_left hcyc]
  rw [← UInt32.not_le, chainsToHide, ceilDiv_le_iff (by omega), hmax, cover, Nat.not_le]

/-- The pipe's work, stopped at the largest word. -/
theorem toNat_work (hcyc : 1 ≤ t.cycPerOp.toNat) :
    (satMul (satMul t.chains t.depth) t.cycPerOp).toNat = min (t.depth.toNat * t.cover) max32 := by
  rw [toNat_satMul_satMul _ _ hcyc, cover, Nat.mul_comm t.chains.toNat, Nat.mul_assoc]

theorem latencyBound_iff (hdepth : 1 ≤ t.depth.toNat) (hcyc : 1 ≤ t.cycPerOp.toNat) :
    t.latencyBound = true ↔ t.cover < t.opLatency.toNat ∧ t.depth.toNat * t.cover < max32 := by
  have hscale : t.depth.toNat * t.cover < t.depth.toNat * t.opLatency.toNat ↔
      t.cover < t.opLatency.toNat := Nat.mul_lt_mul_left hdepth
  rw [latencyBound, decide_eq_true_eq, cycles, chainCycles_bottleneck, toNat_work hcyc,
    toNat_satMul, ← hscale]
  omega

/-- The percentage below the threshold. -/
theorem toNat_utilizationPct (hcyc : 1 ≤ t.cycPerOp.toNat)
    (hbound : t.depth.toNat * t.cover < min (t.depth.toNat * t.opLatency.toNat) max32) :
    t.utilizationPct.toNat = t.depth.toNat * t.cover * 100 /
      min (t.depth.toNat * t.opLatency.toNat) max32 := by
  have hwork : min (t.depth.toNat * t.cover) max32 = t.depth.toNat * t.cover := by omega
  rw [utilizationPct, toNat_chainUtilizationPct, toNat_work hcyc, toNat_satMul, hwork,
    max_eq_right hbound.le, max_eq_left (by omega)]

/-- Full utilization is the absence of the latency bound. -/
theorem utilizationPct_eq_hundred (hdepth : 1 ≤ t.depth.toNat) (hlat : 1 ≤ t.opLatency.toNat) :
    t.utilizationPct = 100 ↔ t.latencyBound = false := by
  have hpath : 1 ≤ (satMul t.depth t.opLatency).toNat := by
    rw [toNat_satMul]
    exact le_min (Nat.mul_pos hdepth hlat) (by decide)
  rw [utilizationPct, chainUtilizationPct_eq_hundred (hpath.trans (le_max_right _ _)),
    latencyBound, cycles, decide_eq_false_iff_not, chainCycles_bottleneck, Nat.not_lt]

/-- At or above the threshold both figures are full. -/
theorem utilization_of_covered (hdepth : 1 ≤ t.depth.toNat) (hcyc : 1 ≤ t.cycPerOp.toNat)
    (hlat : 1 ≤ t.opLatency.toNat) (hcover : t.opLatency.toNat ≤ t.cover) :
    t.utilizationPct.toNat = t.exactPct := by
  have hbound : t.latencyBound = false := by
    rw [← Bool.not_eq_true, latencyBound_iff hdepth hcyc]
    omega
  have hfull : 100 ≤ 100 * t.cover / t.opLatency.toNat :=
    (Nat.le_div_iff_mul_le hlat).mpr (Nat.mul_le_mul_left 100 hcover)
  rw [(utilizationPct_eq_hundred hdepth hlat).mpr hbound, exactPct_eq, min_eq_left hfull]
  rfl

/-- Below it the two agree when the word in place of the path does not show. -/
theorem utilization_iff (hdepth : 1 ≤ t.depth.toNat) (hcyc : 1 ≤ t.cycPerOp.toNat)
    (hcover : t.cover < t.opLatency.toNat) (hwork : t.depth.toNat * t.cover < max32) :
    t.utilizationPct.toNat = t.exactPct ↔ t.depth.toNat * t.opLatency.toNat < 2 ^ 32 ∨
      100 * (t.depth.toNat * t.cover) / max32 = 100 * t.cover / t.opLatency.toNat := by
  have hlt : t.depth.toNat * t.cover < t.depth.toNat * t.opLatency.toNat :=
    (Nat.mul_lt_mul_left hdepth).mpr hcover
  have hpart : 100 * t.cover / t.opLatency.toNat < 100 := Nat.div_lt_of_lt_mul (by omega)
  rw [toNat_utilizationPct hcyc (lt_min hlt hwork), exactPct_eq, min_eq_right hpart.le,
    Nat.mul_comm _ 100]
  by_cases hword : t.depth.toNat * t.opLatency.toNat < 2 ^ 32
  · have hpath : min (t.depth.toNat * t.opLatency.toNat) max32 =
        t.depth.toNat * t.opLatency.toNat := by
      rw [max32]
      omega
    have hcancel : 100 * (t.depth.toNat * t.cover) / (t.depth.toNat * t.opLatency.toNat) =
        100 * t.cover / t.opLatency.toNat := by
      rw [Nat.mul_left_comm, Nat.mul_div_mul_left _ _ hdepth]
    rw [hpath, hcancel]
    exact iff_of_true rfl (Or.inl hword)
  · have hpath : min (t.depth.toNat * t.opLatency.toNat) max32 = max32 := by
      rw [max32]
      omega
    rw [hpath]
    exact (or_iff_right hword).symm

/-- The model is coherent unless the path leaves the word, is not hidden, and
its word shows. -/
theorem coherent_iff (t : OpTemplate) (hdepth : 1 ≤ t.depth) (hcyc : 1 ≤ t.cycPerOp) :
    t.Coherent ↔ t.PathHarmless := by
  have hdepth : 1 ≤ t.depth.toNat := UInt32.le_iff_toNat_le.mp hdepth
  have hcyc : 1 ≤ t.cycPerOp.toNat := UInt32.le_iff_toNat_le.mp hcyc
  constructor
  · intro h
    by_cases hcover : t.opLatency.toNat ≤ t.cover
    · exact Or.inr (Or.inl hcover)
    · have hlt : t.cover < t.opLatency.toNat := not_le.mp hcover
      have hbound := h.bound.mpr ((lt_chainsToHide_iff hcyc).mpr hlt)
      have hwork := ((latencyBound_iff hdepth hcyc).mp hbound).2
      have hlat : 1 ≤ t.opLatency := UInt32.le_iff_toNat_le.mpr (Nat.one_le_of_lt hlt)
      rcases (utilization_iff hdepth hcyc hlt hwork).mp (h.utilization hlat) with h | h
      · exact Or.inl h
      · exact Or.inr (Or.inr ⟨hwork, h⟩)
  · intro h
    have hwork : t.cover < t.opLatency.toNat → t.depth.toNat * t.cover < max32 := by
      intro hcover
      have hlt := (Nat.mul_lt_mul_left hdepth).mpr hcover
      rcases h with h | h | h
      · rw [max32]
        omega
      · omega
      · exact h.1
    refine ⟨?_, fun hlat ↦ ?_, fun hlat ↦ ?_⟩
    · rw [latencyBound_iff hdepth hcyc, lt_chainsToHide_iff hcyc]
      exact and_iff_left_of_imp hwork
    · rw [UInt32.le_iff_toNat_le] at hlat
      by_cases hcover : t.opLatency.toNat ≤ t.cover
      · exact utilization_of_covered hdepth hcyc hlat hcover
      · have hlt : t.cover < t.opLatency.toNat := not_le.mp hcover
        rw [utilization_iff hdepth hcyc hlt (hwork hlt)]
        rcases h with h | h | h
        · exact Or.inl h
        · exact absurd h hcover
        · exact Or.inr h.2
    · exact utilizationPct_eq_hundred hdepth (UInt32.le_iff_toNat_le.mp hlat)

/-- Seven chains of two cycles hide a latency of fourteen. -/
theorem coherent_sevenChains : (⟨7, 64, 2, 14⟩ : OpTemplate).Coherent :=
  (coherent_iff ⟨7, 64, 2, 14⟩ (by decide) (by decide)).mpr (Or.inl (by decide))

/-- One chain whose path does not fit a word: it is half hidden, and the model
says fully. -/
theorem not_coherent : (⟨1, .ofNat max32, 1, 2⟩ : OpTemplate).chainsToHide = 2 ∧
    (⟨1, .ofNat max32, 1, 2⟩ : OpTemplate).latencyBound = false ∧
    (⟨1, .ofNat max32, 1, 2⟩ : OpTemplate).utilizationPct = 100 ∧
    ¬ (⟨1, .ofNat max32, 1, 2⟩ : OpTemplate).Coherent := by
  refine ⟨by decide +kernel, by decide +kernel, by decide +kernel, fun h ↦ ?_⟩
  exact absurd (h.bound.mpr (by decide +kernel)) (by decide +kernel)

end OpTemplate

end CalxMill
