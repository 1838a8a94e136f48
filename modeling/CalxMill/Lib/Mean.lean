import Mathlib.Algebra.Order.BigOperators.Group.List
import Mathlib.Algebra.Order.Field.Basic
import Mathlib.Tactic.Ring

/-!
# Means

The mean of a list lies between its bounds, and reaches a bound where every
entry does.
-/

namespace CalxMill.Lib

variable {K : Type*} [Field K] [LinearOrder K] [IsStrictOrderedRing K] {l : List K} {c : K}

def mean (l : List K) : K := l.sum / l.length

theorem length_pos_cast (hl : l ≠ []) : (0 : K) < l.length :=
  Nat.cast_pos.mpr (List.length_pos_iff.mpr hl)

theorem length_mul_mean (hl : l ≠ []) : l.length * mean l = l.sum :=
  mul_div_cancel₀ _ (length_pos_cast hl).ne'

theorem le_sum_of_forall (h : ∀ x ∈ l, c ≤ x) : l.length * c ≤ l.sum := by
  have hsum := List.card_nsmul_le_sum l c h
  rwa [nsmul_eq_mul] at hsum

theorem le_mean (hl : l ≠ []) (h : ∀ x ∈ l, c ≤ x) : c ≤ mean l := by
  rw [mean, le_div_iff₀ (length_pos_cast hl), mul_comm]
  exact le_sum_of_forall h

/-- The mean is at the lower bound if every entry is. -/
theorem mean_eq_lower_iff (hl : l ≠ []) (h : ∀ x ∈ l, c ≤ x) : mean l = c ↔ ∀ x ∈ l, x = c := by
  have hpos := length_pos_cast hl
  constructor
  · intro hmean x hx
    have hsum : l.length * c = l.sum := by rw [← hmean, length_mul_mean hl]
    by_contra hne
    have hlt := List.sum_lt_sum (l := l) (fun _ ↦ c) (fun y ↦ y) h
      ⟨x, hx, lt_of_le_of_ne (h x hx) (Ne.symm hne)⟩
    rw [List.map_id', List.map_const', List.sum_replicate, nsmul_eq_mul, hsum] at hlt
    exact lt_irrefl _ hlt
  · intro hall
    rw [mean, List.eq_replicate_of_mem hall, List.sum_replicate, List.length_replicate,
      nsmul_eq_mul, mul_div_cancel_left₀ c hpos.ne']

omit [LinearOrder K] [IsStrictOrderedRing K] in
theorem mean_map_neg (l : List K) : mean (l.map Neg.neg) = - mean l := by
  rw [mean, mean, List.length_map, ← List.sum_neg, neg_div]

theorem mean_le (hl : l ≠ []) (h : ∀ x ∈ l, x ≤ c) : mean l ≤ c := by
  have hneg : -c ≤ mean (l.map Neg.neg) := by
    apply le_mean (by simpa using hl)
    intro x hx
    obtain ⟨y, hy, rfl⟩ := List.mem_map.mp hx
    exact neg_le_neg (h y hy)
  rw [mean_map_neg] at hneg
  exact le_of_neg_le_neg hneg

/-- The mean is at the upper bound if every entry is. -/
theorem mean_eq_upper_iff (hl : l ≠ []) (h : ∀ x ∈ l, x ≤ c) : mean l = c ↔ ∀ x ∈ l, x = c := by
  have hneg := mean_eq_lower_iff (l := l.map Neg.neg) (c := -c) (by simpa using hl) (by
    intro x hx
    obtain ⟨y, hy, rfl⟩ := List.mem_map.mp hx
    exact neg_le_neg (h y hy))
  rw [mean_map_neg, neg_inj] at hneg
  rw [hneg, List.forall_mem_map]
  simp only [neg_inj]

end CalxMill.Lib
