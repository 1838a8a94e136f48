import CalxMill.Lib.Overlap
import CalxMill.Telemetry
import Mathlib.Order.Interval.Finset.Nat

/-!
# Measured overlap

The realized overlap of two op spans.  A span is the set of the nanoseconds
from its start stamp up to, and without, its end stamp: an end before the start
leaves it empty.
-/

namespace CalxMill

open Lib Rust

def overlapFraction (a b : TeleRecord) : F64 :=
  let lo := max a.gtStartNs b.gtStartNs
  let hi := min a.gtEndNs b.gtEndNs
  if hi ≤ lo then .fin 0 else
  let inter := asF64 (hi - lo).toNat
  let m := asF64 (min a.spanNs b.spanNs)
  if m ≤ .fin 0 then .fin 0 else (inter / m).fmin (.fin 1)

namespace TeleRecord

/-- The nanoseconds of the span. -/
def span (r : TeleRecord) : Finset ℕ := Finset.Ico r.gtStartNs.toNat r.gtEndNs.toNat

theorem card_span (r : TeleRecord) : r.span.card = r.spanNs := Nat.card_Ico _ _

theorem span_inter (a b : TeleRecord) : a.span ∩ b.span =
    Finset.Ico (max a.gtStartNs b.gtStartNs).toNat (min a.gtEndNs b.gtEndNs).toNat := by
  rw [span, span, Finset.Ico_inter_Ico, UInt64.toNat_max, UInt64.toNat_min]

end TeleRecord

/-- Spans whose later start is not before their earlier end share nothing;
all others are not empty. -/
theorem overlapFraction_eq (a b : TeleRecord) :
    overlapFraction a b = .fin (overlap a.span b.span) := by
  rw [overlapFraction]
  split
  next h =>
    have hle := UInt64.le_iff_toNat_le.mp h
    have hdisjoint : Disjoint a.span b.span := by
      rw [Finset.disjoint_iff_inter_eq_empty, TeleRecord.span_inter]
      exact Finset.Ico_eq_empty_of_le hle
    rw [overlap_eq_zero_iff.mpr hdisjoint]
  next h =>
    have hlt : (max a.gtStartNs b.gtStartNs).toNat < (min a.gtEndNs b.gtEndNs).toNat :=
      Nat.lt_of_not_le (mt UInt64.le_iff_toNat_le.mpr h)
    have hinter : (min a.gtEndNs b.gtEndNs - max a.gtStartNs b.gtStartNs).toNat =
        (a.span ∩ b.span).card := by
      rw [TeleRecord.span_inter, Nat.card_Ico,
        UInt64.toNat_sub_of_le _ _ (UInt64.le_iff_toNat_le.mpr hlt.le)]
    have hcommon : (a.span ∩ b.span).Nonempty := by
      rw [TeleRecord.span_inter]
      exact Finset.nonempty_Ico.mpr hlt
    have ha : a.span.Nonempty := hcommon.mono Finset.inter_subset_left
    have hb : b.span.Nonempty := hcommon.mono Finset.inter_subset_right
    have hmin : (0 : ℚ) < (min a.span.card b.span.card : ℕ) :=
      Nat.cast_pos.mpr (min_card_pos ha hb)
    have hone := overlap_le_one (s := a.span) (t := b.span)
    rw [overlap_of_nonempty ha hb] at hone ⊢
    rw [hinter, ← TeleRecord.card_span, ← TeleRecord.card_span, asF64, asF64,
      if_neg (mt (ExtNum.fin_le_fin _ _).mp (not_le.mpr hmin)), ExtNum.fin_div _ hmin.ne',
      ExtNum.fmin_fin, min_eq_left hone]

/-- The measured overlap is the length of the spans' intersection over the
length of the shorter one. -/
theorem overlapFraction_geometry (a b : TeleRecord) :
    overlapFraction a b = overlapFraction b a ∧ ∃ q : ℚ, overlapFraction a b = .fin q ∧
      (a.span.Nonempty ∧ b.span.Nonempty →
        q = ((a.span ∩ b.span).card : ℚ) / (min a.span.card b.span.card : ℕ)) ∧
      (¬ (a.span.Nonempty ∧ b.span.Nonempty) → q = 0) ∧
      0 ≤ q ∧ q ≤ 1 ∧
      (q = 0 ↔ ¬ ∃ t, t ∈ a.span ∧ t ∈ b.span) ∧
      (q = 1 ↔ a.span.Nonempty ∧ b.span.Nonempty ∧ (a.span ⊆ b.span ∨ b.span ⊆ a.span)) := by
  constructor
  · rw [overlapFraction_eq, overlapFraction_eq, overlap_comm]
  · refine ⟨_, overlapFraction_eq a b, ?_, overlap_of_not_nonempty, overlap_nonneg,
      overlap_le_one, ?_, overlap_eq_one_iff⟩
    · rintro ⟨ha, hb⟩
      exact overlap_of_nonempty ha hb
    · rw [overlap_eq_zero_iff, Finset.disjoint_left]
      simp only [not_exists, not_and]

end CalxMill
