import CalxMill.Latency
import Mathlib.Algebra.BigOperators.Group.List.Basic
import Mathlib.Algebra.Order.BigOperators.Group.List

/-!
# Phase composition

The phases of an op lie on two lanes.  Each figure of a composition is a
function of the work on the lanes, cut off at the largest word, so the order of
the phases does not matter and more work never lowers a figure.
-/

namespace CalxMill.OpComposition

open Rust U32

/-- The cycles on a lane as an unbounded sum. -/
def laneWork (c : OpComposition) (lane : Lane) : ℕ :=
  ((c.phases.filter (·.lane = lane)).map fun p ↦ p.cycles.toNat).sum

/-- No figure of `d` is below that of `c`. -/
structure NotAbove (c d : OpComposition) : Prop where
  serial : c.serialCycles ≤ d.serialCycles
  lane : ∀ lane, c.laneCycles lane ≤ d.laneCycles lane
  overlapped : c.overlappedCycles ≤ d.overlappedCycles
  overlappedIf : ∀ creditable, c.overlappedIf creditable ≤ d.overlappedIf creditable

/-- All figures of the two compositions agree. -/
structure SameFigures (c d : OpComposition) : Prop where
  serial : c.serialCycles = d.serialCycles
  lane : ∀ lane, c.laneCycles lane = d.laneCycles lane
  overlapped : c.overlappedCycles = d.overlappedCycles
  overlappedIf : ∀ creditable, c.overlappedIf creditable = d.overlappedIf creditable

/-! ## The figures as clamped sums -/

theorem toNat_foldl_cycles (phases : List Phase) :
    (phases.foldl (fun acc p ↦ satAdd acc p.cycles) 0).toNat =
      min (phases.map fun p ↦ p.cycles.toNat).sum max32 := by
  have h := toNat_foldl_satAdd (phases.map Phase.cycles) 0
  rw [List.foldl_map, List.map_map, UInt32.toNat_zero, Nat.zero_add] at h
  exact h

theorem sum_eq_laneWork (c : OpComposition) :
    (c.phases.map fun p ↦ p.cycles.toNat).sum = c.laneWork .memory + c.laneWork .compute := by
  rw [laneWork, laneWork]
  induction c.phases with
  | nil => rfl
  | cons p phases ih =>
      obtain ⟨cycles, lane⟩ := p
      cases lane with
      | memory => simp [ih, Nat.add_assoc]
      | compute => simp [ih, Nat.add_left_comm]

theorem toNat_laneCycles (c : OpComposition) (lane : Lane) :
    (c.laneCycles lane).toNat = min (c.laneWork lane) max32 :=
  toNat_foldl_cycles _

/-- The serial sum saturates also when neither lane does. -/
theorem toNat_serialCycles (c : OpComposition) :
    c.serialCycles.toNat = min (c.laneWork .memory + c.laneWork .compute) max32 := by
  rw [serialCycles, toNat_foldl_cycles, sum_eq_laneWork]

theorem toNat_overlappedCycles (c : OpComposition) :
    c.overlappedCycles.toNat =
      max (min (c.laneWork .memory) max32) (min (c.laneWork .compute) max32) := by
  rw [overlappedCycles, UInt32.toNat_max, toNat_laneCycles, toNat_laneCycles]

/-! ## The bracket -/

theorem laneCycles_le_overlappedCycles (c : OpComposition) (lane : Lane) :
    c.laneCycles lane ≤ c.overlappedCycles := by
  rw [UInt32.le_iff_toNat_le, overlappedCycles, UInt32.toNat_max]
  cases lane with
  | memory => exact le_max_left _ _
  | compute => exact le_max_right _ _

theorem overlappedCycles_le_serialCycles (c : OpComposition) :
    c.overlappedCycles ≤ c.serialCycles := by
  rw [UInt32.le_iff_toNat_le, toNat_overlappedCycles, toNat_serialCycles]
  omega

/-- Two lanes at most halve the serial time, also where the sums saturate. -/
theorem serialCycles_le_two_mul (c : OpComposition) :
    c.serialCycles.toNat ≤ 2 * c.overlappedCycles.toNat := by
  rw [toNat_overlappedCycles, toNat_serialCycles]
  omega

/-! ## Reordering and growth -/

theorem notAbove_of_laneWork_le {c d : OpComposition}
    (h : ∀ lane, c.laneWork lane ≤ d.laneWork lane) : NotAbove c d := by
  have hmemory := h .memory
  have hcompute := h .compute
  have hserial : c.serialCycles ≤ d.serialCycles := by
    rw [UInt32.le_iff_toNat_le, toNat_serialCycles, toNat_serialCycles]
    omega
  have hlane : ∀ lane, c.laneCycles lane ≤ d.laneCycles lane := by
    intro lane
    rw [UInt32.le_iff_toNat_le, toNat_laneCycles, toNat_laneCycles]
    exact min_le_min_right _ (h lane)
  have hoverlapped : c.overlappedCycles ≤ d.overlappedCycles := by
    rw [UInt32.le_iff_toNat_le, toNat_overlappedCycles, toNat_overlappedCycles]
    omega
  refine ⟨hserial, hlane, hoverlapped, ?_⟩
  intro creditable
  cases creditable with
  | false => exact hserial
  | true => exact hoverlapped

theorem NotAbove.sameFigures {c d : OpComposition} (h : NotAbove c d) (h' : NotAbove d c) :
    SameFigures c d where
  serial := UInt32.le_antisymm h.serial h'.serial
  lane lane := UInt32.le_antisymm (h.lane lane) (h'.lane lane)
  overlapped := UInt32.le_antisymm h.overlapped h'.overlapped
  overlappedIf creditable := UInt32.le_antisymm (h.overlappedIf creditable) (h'.overlappedIf creditable)

theorem laneWork_perm {phases phases' : List Phase} (h : phases.Perm phases') (lane : Lane) :
    laneWork ⟨phases⟩ lane = laneWork ⟨phases'⟩ lane :=
  ((h.filter _).map _).sum_eq

theorem laneWork_le_append (phases more : List Phase) (lane : Lane) :
    laneWork ⟨phases⟩ lane ≤ laneWork ⟨phases ++ more⟩ lane := by
  rw [laneWork, laneWork, List.filter_append, List.map_append, List.sum_append]
  exact Nat.le_add_right _ _

theorem sameFigures_of_perm {phases phases' : List Phase} (h : phases.Perm phases') :
    SameFigures ⟨phases⟩ ⟨phases'⟩ :=
  (notAbove_of_laneWork_le fun lane ↦ (laneWork_perm h lane).le).sameFigures
    (notAbove_of_laneWork_le fun lane ↦ (laneWork_perm h lane).ge)

/-- The composition of any phases: the overlapped figure lies between the lanes
and the serial sum, and at least at half of it; the figures do not depend on the
order of the phases and never fall with one phase more. -/
theorem figures_bracketed (phases : List Phase) :
    let c : OpComposition := ⟨phases⟩
    (∀ lane, c.laneCycles lane ≤ c.overlappedCycles) ∧
      c.overlappedCycles ≤ c.serialCycles ∧
      c.serialCycles.toNat ≤ 2 * c.overlappedCycles.toNat ∧
      c.overlappedIf true ≤ c.overlappedIf false ∧
      (∀ phases', phases.Perm phases' → SameFigures c ⟨phases'⟩) ∧
      ∀ p, NotAbove c ⟨phases ++ [p]⟩ := by
  intro c
  have hle : c.overlappedCycles ≤ c.serialCycles := c.overlappedCycles_le_serialCycles
  refine ⟨c.laneCycles_le_overlappedCycles, hle, c.serialCycles_le_two_mul, hle, ?_, ?_⟩
  · intro phases' h
    exact sameFigures_of_perm h
  · intro p
    exact notAbove_of_laneWork_le (laneWork_le_append phases [p])

end CalxMill.OpComposition
