import CalxMill.Precision
import CalxMill.Rust.Checked

/-!
# Occupancy in percent

The percentage multiplies the concurrency by a hundred in one word.  From
42949673 concurrent units on the product leaves the word.
-/

namespace CalxMill

open Lib Rust U32

def occupancyPct (s : Substrate) (w : WorkUnit) : Exec Str ℕ := do
  let c := concurrency s w
  if s.concurrencyCeiling = 0 then return 0
  let scaled ← mulU32 c.toNat 100
  return scaled / s.concurrencyCeiling.toNat

/-- The percentage is the exact one, and no larger demand raises it. -/
def OccupancyExact (s : Substrate) (w : WorkUnit) : Prop :=
  ∃ p, occupancyPct s w = .ok p ∧
    p = 100 * (concurrency s w).toNat / s.concurrencyCeiling.toNat ∧
    p ≤ 100 ∧
    (p = 100 ↔ concurrency s w = s.concurrencyCeiling) ∧
    ∀ w', w.Within w' → ∃ p', occupancyPct s w' = .ok p' ∧ p' ≤ p

variable {s : Substrate} {w : WorkUnit} {p : ℕ}

theorem concurrency_le_ceiling (s : Substrate) (w : WorkUnit) :
    (concurrency s w).toNat ≤ s.concurrencyCeiling.toNat :=
  (le_concurrency_iff.mp le_rfl).1

theorem occupancyPct_eq_ok (hceiling : 1 ≤ s.concurrencyCeiling.toNat) :
    occupancyPct s w = .ok p ↔ (concurrency s w).toNat < 42949673 ∧
      p = 100 * (concurrency s w).toNat / s.concurrencyCeiling.toNat := by
  have hne : s.concurrencyCeiling ≠ 0 := by
    intro h
    rw [h, UInt32.toNat_zero] at hceiling
    omega
  have hword : (concurrency s w).toNat * 100 < 2 ^ 32 ↔ (concurrency s w).toNat < 42949673 := by
    omega
  rw [occupancyPct, if_neg hne, Nat.mul_comm 100, ← hword, mulU32, Exec.bind_eq_ok]
  constructor
  · rintro ⟨scaled, hscaled, hp⟩
    obtain ⟨hlt, rfl⟩ := checked_eq_ok.mp hscaled
    exact ⟨hlt, (Except.ok.inj hp).symm⟩
  · rintro ⟨hlt, rfl⟩
    exact ⟨_, checked_eq_ok.mpr ⟨hlt, rfl⟩, rfl⟩

/-- Many units that run at once fit at once: no demand that leaves the word is
covered twice. -/
theorem le_concurrency_iff_fits {n : ℕ} (hn : 2 ≤ n) :
    n ≤ (concurrency s w).toNat ↔ w.Fits s n := by
  have hcapped : ∀ (capacity : UInt32) (demand : ℕ),
      n * min demand max32 ≤ capacity.toNat ↔ n * demand ≤ capacity.toNat := by
    intro capacity demand
    have hcap := toNat_le_max32 capacity
    rcases le_total demand max32 with hle | hle
    · rw [min_eq_left hle]
    · have hword := Nat.mul_le_mul_right max32 hn
      have hexact := Nat.mul_le_mul_left n hle
      have hpos : 0 < max32 := by decide
      rw [min_eq_right hle]
      exact iff_of_false (by omega) (by omega)
  rw [le_concurrency_iff, hcapped, hcapped]
  exact ⟨fun ⟨hceiling, hreg, hstore⟩ ↦ ⟨hceiling, hreg, hstore⟩,
    fun h ↦ ⟨h.ceiling, h.registers, h.localStore⟩⟩

theorem floor_pct_le {c n : ℕ} (hn : 1 ≤ n) (hc : c ≤ n) : 100 * c / n ≤ 100 := by
  rw [Nat.div_le_iff_le_mul_add_pred hn]
  have hmul := Nat.mul_le_mul_left 100 hc
  omega

theorem floor_pct_eq_hundred {c n : ℕ} (hn : 1 ≤ n) (hc : c ≤ n) :
    100 * c / n = 100 ↔ c = n := by
  constructor
  · intro h
    have hle := Nat.div_mul_le_self (100 * c) n
    rw [h] at hle
    omega
  · rintro rfl
    exact Nat.mul_div_cancel _ hn

/-- The percentage is exact on the work units of which 42949673 do not fit at once. -/
theorem occupancyExact_iff (s : Substrate) (w : WorkUnit)
    (hceiling : 1 ≤ s.concurrencyCeiling.toNat) :
    OccupancyExact s w ↔ ¬ w.Fits s 42949673 := by
  have hfits := le_concurrency_iff_fits (s := s) (w := w) (n := 42949673) (by decide)
  rw [← hfits, Nat.not_le]
  constructor
  · rintro ⟨p, hp, -⟩
    exact ((occupancyPct_eq_ok hceiling).mp hp).1
  · intro hlt
    have hle := concurrency_le_ceiling s w
    refine ⟨_, (occupancyPct_eq_ok hceiling).mpr ⟨hlt, rfl⟩, rfl, floor_pct_le hceiling hle, ?_, ?_⟩
    · rw [floor_pct_eq_hundred hceiling hle, UInt32.toNat_inj]
    · intro w' hw
      have hmono := UInt32.le_iff_toNat_le.mp (concurrency_le hw (.refl s))
      refine ⟨_, (occupancyPct_eq_ok hceiling).mpr ⟨hmono.trans_lt hlt, rfl⟩, ?_⟩
      exact Nat.div_le_div_right (Nat.mul_le_mul_left 100 hmono)

/-- 32 slots, of which the registers cover 16: half of the ceiling. -/
theorem occupancyExact_half : ¬ WorkUnit.Fits ⟨64, 0⟩ ⟨1024, 0, 0, 0, 32, 4, 64⟩ 42949673 ∧
    OccupancyExact ⟨1024, 0, 0, 0, 32, 4, 64⟩ ⟨64, 0⟩ := by
  have h : ¬ WorkUnit.Fits ⟨64, 0⟩ ⟨1024, 0, 0, 0, 32, 4, 64⟩ 42949673 := fun h ↦
    absurd h.ceiling (by decide)
  exact ⟨h, (occupancyExact_iff _ _ (by decide)).mpr h⟩

/-- A ceiling of 42949673 units of one register each: all of them run, and a
hundred times their number leaves the word. -/
theorem not_occupancyExact : ¬ ∀ (s : Substrate) (w : WorkUnit),
    1 ≤ s.concurrencyCeiling.toNat → OccupancyExact s w := by
  intro h
  obtain ⟨p, hp, -⟩ := h ⟨42949673, 0, 0, 0, 42949673, 4, 64⟩ ⟨1, 0⟩ (by decide)
  have hlt := ((occupancyPct_eq_ok (by decide)).mp hp).1
  exact absurd hlt (by decide)

end CalxMill
