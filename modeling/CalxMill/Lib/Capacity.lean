import Mathlib.Algebra.BigOperators.Fin
import Mathlib.Algebra.Order.BigOperators.Group.Finset
import Mathlib.Order.Bounds.Basic
import Mathlib.Order.Lattice.Nat

/-!
# Sharing a capacity

Amounts are handed out in whole multiples of a unit, and a number of parts is
spread over places that each take at most so many.
-/

namespace CalxMill.Lib

/-- The least multiple of `unit` from `x` on; a unit of zero is no granularity. -/
noncomputable def leastMultiple (unit x : ℕ) : ℕ :=
  if unit = 0 then x else sInf {m | unit ∣ m ∧ x ≤ m}

@[simp] theorem leastMultiple_zero (x : ℕ) : leastMultiple 0 x = x := if_pos rfl

theorem isLeast_leastMultiple {unit : ℕ} (hunit : unit ≠ 0) (x : ℕ) :
    IsLeast {m | unit ∣ m ∧ x ≤ m} (leastMultiple unit x) := by
  have hne : {m | unit ∣ m ∧ x ≤ m}.Nonempty :=
    ⟨unit * x, dvd_mul_right unit x, Nat.le_mul_of_pos_left x (Nat.pos_of_ne_zero hunit)⟩
  rw [leastMultiple, if_neg hunit]
  exact ⟨Nat.sInf_mem hne, fun m hm ↦ Nat.sInf_le hm⟩

theorem le_leastMultiple (unit x : ℕ) : x ≤ leastMultiple unit x := by
  by_cases hunit : unit = 0
  · rw [hunit, leastMultiple_zero]
  · exact (isLeast_leastMultiple hunit x).1.2

/-- The least multiple fills up the last, partial unit. -/
theorem leastMultiple_eq_add {unit : ℕ} (hunit : unit ≠ 0) (x : ℕ) :
    leastMultiple unit x = if x % unit = 0 then x else x + (unit - x % unit) := by
  apply (isLeast_leastMultiple hunit x).unique
  have hlt : x % unit < unit := Nat.mod_lt x (Nat.pos_of_ne_zero hunit)
  have hdiv : unit * (x / unit) + x % unit = x := Nat.div_add_mod x unit
  split
  next hmod => exact ⟨⟨Nat.dvd_of_mod_eq_zero hmod, le_rfl⟩, fun m hm ↦ hm.2⟩
  next hmod =>
    have hnext : x + (unit - x % unit) = unit * (x / unit + 1) := by
      rw [Nat.mul_succ]
      omega
    refine ⟨⟨⟨_, hnext⟩, Nat.le_add_right _ _⟩, ?_⟩
    rintro m ⟨⟨q, rfl⟩, hle⟩
    rw [hnext]
    apply Nat.mul_le_mul_left
    by_contra hq
    have hmul : unit * q ≤ unit * (x / unit) := Nat.mul_le_mul_left _ (by omega)
    omega

theorem leastMultiple_mono (unit : ℕ) : Monotone (leastMultiple unit) := by
  intro x y h
  by_cases hunit : unit = 0
  · rwa [hunit, leastMultiple_zero, leastMultiple_zero]
  · obtain ⟨⟨hdvd, hle⟩, -⟩ := isLeast_leastMultiple hunit y
    exact (isLeast_leastMultiple hunit x).2 ⟨hdvd, h.trans hle⟩

/-- Parts can be spread over `n` places with at most `b` on each one exactly
when there are at most `n * b` of them. -/
theorem exists_sum_eq_iff {n b g : ℕ} :
    (∃ k : Fin n → ℕ, ∑ i, k i = g ∧ ∀ i, k i ≤ b) ↔ g ≤ n * b := by
  constructor
  · rintro ⟨k, rfl, hk⟩
    calc ∑ i, k i ≤ ∑ _i : Fin n, b := Finset.sum_le_sum fun i _ ↦ hk i
      _ = n * b := by simp
  · intro h
    induction n generalizing g with
    | zero => exact ⟨Fin.elim0, by simp_all, fun i ↦ i.elim0⟩
    | succ n ih =>
        have hrest : g - min g b ≤ n * b := by
          rw [Nat.succ_mul] at h
          omega
        obtain ⟨k, hsum, hk⟩ := ih hrest
        refine ⟨Fin.cons (min g b) k, ?_, ?_⟩
        · rw [Fin.sum_univ_succ, Fin.cons_zero]
          simp only [Fin.cons_succ, hsum]
          exact Nat.add_sub_cancel' (min_le_left g b)
        · refine Fin.cases (min_le_right g b) fun i ↦ ?_
          rw [Fin.cons_succ]
          exact hk i

end CalxMill.Lib
