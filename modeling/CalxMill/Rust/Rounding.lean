import CalxMill.Rust.Float
import Mathlib.Data.Int.Log

/-!
# Rounding to doubles

An operation on doubles rounds its exact result to the nearest one, ties to
even.  A definition that follows the operations of the source takes the
rounding as its last argument; where none is given, results stay exact.
-/

namespace CalxMill.Rust

open Lib

/-- What becomes of an exact result. -/
abbrev Rounding := F64 → F64

namespace F64

/-! ## Ties to even -/

section Ties

variable {n : ℕ} {x : ℚ}

theorem roundEven_le_iff (hx : 0 ≤ x) :
    roundEven x ≤ n ↔ x < n + 1 / 2 ∨ (x = n + 1 / 2 ∧ n % 2 = 0) := by
  have hlow : (⌊x⌋₊ : ℚ) ≤ x := Nat.floor_le hx
  have hhigh : x < ⌊x⌋₊ + 1 := Nat.lt_floor_add_one x
  rcases lt_trichotomy ⌊x⌋₊ n with hlt | heq | hgt
  · have hle : (⌊x⌋₊ : ℚ) + 1 ≤ n := by exact_mod_cast hlt
    have hround : roundEven x ≤ n := roundEven_le (by linarith)
    exact iff_of_true hround (Or.inl (by linarith))
  · unfold roundEven
    dsimp only
    rw [heq]
    split
    next h =>
      refine iff_of_true le_rfl (h.imp (fun h ↦ by linarith) fun h ↦ ⟨by linarith [h.1], h.2⟩)
    next h =>
      apply iff_of_false (by omega)
      exact mt (Or.imp (fun h ↦ by linarith) fun h ↦ ⟨by linarith [h.1], h.2⟩) h
  · have hle : (n : ℚ) + 1 ≤ ⌊x⌋₊ := by exact_mod_cast hgt
    have hround : ⌊x⌋₊ ≤ roundEven x := le_roundEven hlow
    apply iff_of_false (by omega)
    rintro (h | ⟨h, -⟩)
    · linarith
    · linarith

theorem roundEven_le_iff_of_odd (hx : 0 ≤ x) (hn : n % 2 = 1) :
    roundEven x ≤ n ↔ x < n + 1 / 2 := by
  rw [roundEven_le_iff hx]
  exact or_iff_left (fun h ↦ by omega)

theorem roundEven_le_iff_of_even (hx : 0 ≤ x) (hn : n % 2 = 0) :
    roundEven x ≤ n ↔ x ≤ n + 1 / 2 := by
  rw [roundEven_le_iff hx, le_iff_lt_or_eq]
  exact or_congr_right (and_iff_left hn)

end Ties

/-! ## The nearest double -/

/-- The exponent of the last place: 52 places below the leading one, and never
below the place of the smallest double. -/
def lastPlace (q : ℚ) : ℤ := max (Int.log 2 |q| - 52) (-1074)

/-- A unit in the last place. -/
def ulp (q : ℚ) : ℚ := 2 ^ lastPlace q

def nearest (q : ℚ) : ℚ :=
  let p := roundEven (|q| / ulp q) * ulp q
  if q < 0 then -p else p

/-- The last place of the largest double. -/
def topUlp : ℚ := 2 ^ 971

def maxFinite : ℚ := (2 ^ 53 - 1) * topUlp

/-- Half a place above the largest double. -/
def overflow : ℚ := maxFinite + topUlp / 2

/-- Round to nearest, ties to even; what reaches half a place above the largest
double becomes an infinity. -/
def binary64 : Rounding
  | .fin q => if overflow ≤ |q| then .inf (decide (q < 0)) else .fin (nearest q)
  | x => x

/-- The number is a double. -/
def IsDouble (q : ℚ) : Prop := binary64 (.fin q) = .fin q

example : binary64 (.fin (1 / 10)) = .fin (3602879701896397 / 36028797018963968) := by
  decide +kernel

example : binary64 (.fin (10 ^ 999)) = .inf false := by decide +kernel

theorem isDouble_maxFinite : IsDouble maxFinite := by
  unfold IsDouble
  decide +kernel

theorem binary64_eq_fin {q p : ℚ} :
    binary64 (.fin q) = .fin p ↔ |q| < overflow ∧ nearest q = p := by
  rw [binary64]
  split
  next h => exact iff_of_false nofun fun hp ↦ absurd hp.1 (not_lt.mpr h)
  next h =>
    rw [ExtNum.fin.injEq]
    exact (and_iff_right (not_le.mp h)).symm

theorem exists_of_binary64_eq_fin {v : F64} {p : ℚ} (h : binary64 v = .fin p) :
    ∃ q, v = .fin q ∧ |q| < overflow ∧ nearest q = p := by
  cases v with
  | nan => cases h
  | inf neg => cases h
  | fin q => exact ⟨q, rfl, binary64_eq_fin.mp h⟩

theorem ulp_pos (q : ℚ) : 0 < ulp q := zpow_pos (by norm_num) _

theorem abs_nearest (q : ℚ) : |nearest q| = roundEven (|q| / ulp q) * ulp q := by
  have hpos : 0 ≤ (roundEven (|q| / ulp q) : ℚ) * ulp q :=
    mul_nonneg (Nat.cast_nonneg _) (ulp_pos q).le
  unfold nearest
  dsimp only
  split
  · rw [abs_neg, abs_of_nonneg hpos]
  · exact abs_of_nonneg hpos

theorem nearest_nonneg {q : ℚ} (h : 0 ≤ q) : 0 ≤ nearest q := by
  unfold nearest
  rw [if_neg (not_lt.mpr h)]
  exact mul_nonneg (Nat.cast_nonneg _) (ulp_pos q).le

theorem log_lt_iff {q : ℚ} (hq : q ≠ 0) (k : ℕ) : Int.log 2 |q| < k ↔ |q| < 2 ^ k := by
  rw [← Int.lt_zpow_iff_log_lt Nat.one_lt_two (abs_pos.mpr hq), zpow_natCast, Nat.cast_ofNat]

/-- Below the top binade a number does not round into it. -/
theorem abs_nearest_le_of_lt {q : ℚ} (h : |q| < 2 ^ 1023) : |nearest q| ≤ 2 ^ 1023 := by
  have hplace : lastPlace q ≤ 1023 := by
    rcases eq_or_ne q 0 with rfl | hq
    · exact (by decide +kernel : lastPlace 0 ≤ 1023)
    · have hlog : Int.log 2 |q| < (1023 : ℕ) := (log_lt_iff hq 1023).mpr h
      exact max_le (by omega) (by omega)
  have hsplit : (2 : ℚ) ^ 1023 = ((2 ^ (1023 - lastPlace q).toNat : ℕ) : ℚ) * ulp q := by
    rw [ulp, Nat.cast_pow, Nat.cast_ofNat, ← zpow_natCast, ← zpow_natCast, ← zpow_add₀ two_ne_zero]
    congr 1
    omega
  rw [abs_nearest, hsplit]
  apply mul_le_mul_of_nonneg_right _ (ulp_pos q).le
  exact_mod_cast roundEven_le ((div_le_iff₀ (ulp_pos q)).mpr (hsplit ▸ h.le))

theorem topUlp_pos : 0 < topUlp := pow_pos two_pos 971

theorem two_pow_1023 : (2 : ℚ) ^ 1023 = 2 ^ 52 * topUlp := by rw [topUlp, ← pow_add]

theorem two_pow_1024 : (2 : ℚ) ^ 1024 = 2 ^ 53 * topUlp := by rw [topUlp, ← pow_add]

/-- The last place in the top binade. -/
theorem ulp_eq {q : ℚ} (hlow : 2 ^ 1023 ≤ |q|) (hhigh : |q| < 2 ^ 1024) : ulp q = topUlp := by
  have hq : q ≠ 0 := abs_pos.mp (lt_of_lt_of_le (pow_pos two_pos 1023) hlow)
  have hlt : Int.log 2 |q| < (1024 : ℕ) := (log_lt_iff hq 1024).mpr hhigh
  have hge : ¬ Int.log 2 |q| < (1023 : ℕ) := mt (log_lt_iff hq 1023).mp (not_lt.mpr hlow)
  have hplace : lastPlace q = (971 : ℕ) := by
    rw [lastPlace]
    omega
  rw [ulp, hplace, zpow_natCast, topUlp]

/-- A number that does not overflow rounds to the largest double at most, and
stays below it exactly up to half a place below. -/
theorem abs_nearest_top {q : ℚ} (h : |q| < overflow) :
    |nearest q| ≤ maxFinite ∧ (|nearest q| < maxFinite ↔ |q| ≤ maxFinite - topUlp / 2) := by
  have hu := topUlp_pos
  rw [overflow, maxFinite] at h
  rw [maxFinite]
  rcases lt_or_ge |q| (2 ^ 1023) with hlow | hlow
  · have hle := abs_nearest_le_of_lt hlow
    rw [two_pow_1023] at hle hlow
    exact ⟨by linarith, iff_of_true (by linarith) (by linarith)⟩
  · have hhigh : |q| < 2 ^ 1024 := by
      rw [two_pow_1024]
      linarith only [h, hu]
    have hx : 0 ≤ |q| / topUlp := div_nonneg (abs_nonneg q) hu.le
    have hcast : (2 ^ 53 - 1 : ℚ) = ((2 ^ 53 - 1 : ℕ) : ℚ) := by norm_num
    rw [abs_nearest, ulp_eq hlow hhigh, hcast]
    constructor
    · have hodd : roundEven (|q| / topUlp) ≤ 2 ^ 53 - 1 := by
        rw [roundEven_le_iff_of_odd hx (by decide), div_lt_iff₀ hu, ← hcast]
        linarith only [h]
      exact mul_le_mul_of_nonneg_right (Nat.cast_le.mpr hodd) hu.le
    · have hpred : ((2 ^ 53 - 2 : ℕ) : ℚ) = 2 ^ 53 - 2 := by norm_num
      rw [mul_lt_mul_iff_left₀ hu, Nat.cast_lt, ← hcast]
      calc roundEven (|q| / topUlp) < 2 ^ 53 - 1 ↔ roundEven (|q| / topUlp) ≤ 2 ^ 53 - 2 :=
            Nat.lt_succ_iff
        _ ↔ |q| ≤ ((2 ^ 53 - 2 : ℕ) + 1 / 2) * topUlp := by
            rw [roundEven_le_iff_of_even hx (by decide), div_le_iff₀ hu]
        _ ↔ |q| ≤ (2 ^ 53 - 1) * topUlp - topUlp / 2 := by
            rw [hpred]
            exact Eq.to_iff (congrArg _ (by ring))

theorem IsDouble.abs_le {x : ℚ} (h : IsDouble x) : |x| ≤ maxFinite := by
  obtain ⟨hlt, hx⟩ := binary64_eq_fin.mp h
  exact hx ▸ (abs_nearest_top hlt).1

theorem isDouble_neg_maxFinite : IsDouble (-maxFinite) := by
  unfold IsDouble
  decide +kernel

/-- Some double lies as far from a number as the range allows. -/
theorem exists_isDouble_abs_sub (m : ℚ) : ∃ x, IsDouble x ∧ |x - m| = maxFinite + |m| := by
  have hmax : 0 ≤ maxFinite := (abs_nonneg _).trans isDouble_maxFinite.abs_le
  rcases le_total 0 m with hm | hm
  · refine ⟨-maxFinite, isDouble_neg_maxFinite, ?_⟩
    rw [abs_of_nonneg hm, ← neg_add', abs_neg, abs_of_nonneg (add_nonneg hmax hm)]
  · refine ⟨maxFinite, isDouble_maxFinite, ?_⟩
    rw [abs_of_nonpos hm, abs_of_nonneg (by linarith), sub_eq_add_neg]

/-- The rounded distance of some double to a number exceeds a bound exactly
when the bound is below the largest double, or when distances overflow. -/
theorem exists_far_iff {m t : ℚ} :
    (∃ x, IsDouble x ∧ ¬ (binary64 (.fin (x - m))).abs ≤ .fin t) ↔
      t < maxFinite ∨ topUlp / 2 ≤ |m| := by
  constructor
  · rintro ⟨x, hx, hfar⟩
    by_contra hnot
    obtain ⟨hmax, hm⟩ := not_or.mp hnot
    have hdist : |x - m| < overflow := by
      calc |x - m| ≤ |x| + |m| := abs_sub x m
        _ < maxFinite + topUlp / 2 := add_lt_add_of_le_of_lt hx.abs_le (not_le.mp hm)
    apply hfar
    rw [binary64_eq_fin.mpr ⟨hdist, rfl⟩, ExtNum.abs_fin, ExtNum.fin_le_fin]
    exact (abs_nearest_top hdist).1.trans (not_lt.mp hmax)
  · intro h
    obtain ⟨x, hx, hdist⟩ := exists_isDouble_abs_sub m
    refine ⟨x, hx, ?_⟩
    rw [binary64]
    split
    · exact nofun
    next hfin =>
      have hlt := not_le.mp hfin
      rcases h with h | h
      · have hnear : ¬ |nearest (x - m)| < maxFinite := by
          rw [(abs_nearest_top hlt).2, hdist]
          linarith [abs_nonneg m, topUlp_pos]
        rw [ExtNum.abs_fin, ExtNum.fin_le_fin]
        exact fun hle ↦ hnear (hle.trans_lt h)
      · rw [hdist, overflow] at hlt
        exact absurd hlt (not_lt.mpr (add_le_add_right h _))

end F64

end CalxMill.Rust
