import Mathlib.Algebra.Order.Field.Rat
import Mathlib.Data.Finset.Card
import Mathlib.Tactic.Positivity

/-!
# The overlap of two finite sets

The share of the smaller set that lies in the other one.  It is zero for
disjoint sets and one where a set contains the other.
-/

namespace CalxMill.Lib

variable {α : Type*} [DecidableEq α] (s t : Finset α)

/-- The size of the intersection over the smaller size; zero when a set is empty. -/
def overlap : ℚ :=
  if s.Nonempty ∧ t.Nonempty then ((s ∩ t).card : ℚ) / (min s.card t.card : ℕ) else 0

variable {s t}

theorem overlap_of_nonempty (hs : s.Nonempty) (ht : t.Nonempty) :
    overlap s t = ((s ∩ t).card : ℚ) / (min s.card t.card : ℕ) :=
  if_pos ⟨hs, ht⟩

theorem overlap_of_not_nonempty (h : ¬ (s.Nonempty ∧ t.Nonempty)) : overlap s t = 0 := if_neg h

theorem overlap_comm : overlap s t = overlap t s := by
  rw [overlap, overlap, Finset.inter_comm, Nat.min_comm]
  simp only [and_comm]

theorem overlap_nonneg : 0 ≤ overlap s t := by
  rw [overlap]
  split
  · positivity
  · exact le_rfl

theorem card_inter_le_min : (s ∩ t).card ≤ min s.card t.card :=
  le_min (Finset.card_le_card Finset.inter_subset_left)
    (Finset.card_le_card Finset.inter_subset_right)

omit [DecidableEq α] in
theorem min_card_pos (hs : s.Nonempty) (ht : t.Nonempty) : 0 < min s.card t.card :=
  lt_min hs.card_pos ht.card_pos

theorem overlap_le_one : overlap s t ≤ 1 := by
  by_cases h : s.Nonempty ∧ t.Nonempty
  · rw [overlap_of_nonempty h.1 h.2]
    exact div_le_one_of_le₀ (Nat.cast_le.mpr card_inter_le_min) (Nat.cast_nonneg _)
  · rw [overlap_of_not_nonempty h]
    exact zero_le_one

theorem overlap_eq_zero_iff : overlap s t = 0 ↔ Disjoint s t := by
  by_cases h : s.Nonempty ∧ t.Nonempty
  · have hmin : ((min s.card t.card : ℕ) : ℚ) ≠ 0 :=
      Nat.cast_ne_zero.mpr (min_card_pos h.1 h.2).ne'
    rw [overlap_of_nonempty h.1 h.2, div_eq_zero_iff, or_iff_left hmin, Nat.cast_eq_zero,
      Finset.card_eq_zero, Finset.disjoint_iff_inter_eq_empty]
  · refine iff_of_true (overlap_of_not_nonempty h) ?_
    rcases not_and_or.mp h with hs | ht
    · rw [Finset.not_nonempty_iff_eq_empty.mp hs]
      exact Finset.disjoint_empty_left t
    · rw [Finset.not_nonempty_iff_eq_empty.mp ht]
      exact Finset.disjoint_empty_right s

/-- A full overlap is a containment, on either side. -/
theorem card_inter_eq_min_iff : (s ∩ t).card = min s.card t.card ↔ s ⊆ t ∨ t ⊆ s := by
  constructor
  · intro h
    rcases min_choice s.card t.card with hmin | hmin
    · have hinter := Finset.eq_of_subset_of_card_le Finset.inter_subset_left (hmin.symm.trans h.symm).le
      exact Or.inl (Finset.inter_eq_left.mp hinter)
    · have hinter := Finset.eq_of_subset_of_card_le Finset.inter_subset_right (hmin.symm.trans h.symm).le
      exact Or.inr (Finset.inter_eq_right.mp hinter)
  · rintro (h | h)
    · rw [Finset.inter_eq_left.mpr h, min_eq_left (Finset.card_le_card h)]
    · rw [Finset.inter_eq_right.mpr h, min_eq_right (Finset.card_le_card h)]

theorem overlap_eq_one_iff :
    overlap s t = 1 ↔ s.Nonempty ∧ t.Nonempty ∧ (s ⊆ t ∨ t ⊆ s) := by
  rw [← and_assoc]
  by_cases h : s.Nonempty ∧ t.Nonempty
  · have hmin : ((min s.card t.card : ℕ) : ℚ) ≠ 0 :=
      Nat.cast_ne_zero.mpr (min_card_pos h.1 h.2).ne'
    rw [overlap_of_nonempty h.1 h.2, div_eq_one_iff_eq hmin, Nat.cast_inj, card_inter_eq_min_iff]
    exact (and_iff_right h).symm
  · rw [overlap_of_not_nonempty h]
    exact iff_of_false zero_ne_one fun hone ↦ h hone.1

end CalxMill.Lib
