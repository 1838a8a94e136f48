import Mathlib.Data.UInt
import Mathlib.Algebra.Order.Floor.Div
import Mathlib.Algebra.Order.Group.Nat
import Mathlib.Tactic.Common

/-!
# Saturating arithmetic on `u32`

The saturating operations stop at the largest word, or at zero.  Each one is
read off from its value: `simp` moves a word expression to the naturals and
`omega` finishes there.
-/

namespace CalxMill.Rust.U32

/-- `u32::MAX` -/
def max32 : ℕ := 2 ^ 32 - 1

def satAdd (a b : UInt32) : UInt32 := .ofNat (min (a.toNat + b.toNat) max32)

def satSub (a b : UInt32) : UInt32 := .ofNat (a.toNat - b.toNat)

def satMul (a b : UInt32) : UInt32 := .ofNat (min (a.toNat * b.toNat) max32)

theorem toNat_le_max32 (a : UInt32) : a.toNat ≤ max32 := by
  have h := a.toNat_lt
  rw [max32]
  omega

theorem toNat_ofNat_of_le {n : ℕ} (h : n ≤ max32) : (UInt32.ofNat n).toNat = n := by
  rw [UInt32.toNat_ofNat', Nat.mod_eq_of_lt]
  rw [max32] at h
  omega

@[simp] theorem toNat_satAdd (a b : UInt32) :
    (satAdd a b).toNat = min (a.toNat + b.toNat) max32 :=
  toNat_ofNat_of_le (min_le_right _ _)

@[simp] theorem toNat_satSub (a b : UInt32) : (satSub a b).toNat = a.toNat - b.toNat :=
  toNat_ofNat_of_le ((Nat.sub_le _ _).trans (toNat_le_max32 a))

@[simp] theorem toNat_satMul (a b : UInt32) :
    (satMul a b).toNat = min (a.toNat * b.toNat) max32 :=
  toNat_ofNat_of_le (min_le_right _ _)

@[simp] theorem toNat_max_one (a : UInt32) : (max a 1).toNat = max a.toNat 1 := UInt32.toNat_max a 1

/-- A factor cut off at the largest word does not show in a product cut off there. -/
theorem min_mul_max32 (a : ℕ) {c : ℕ} (hc : 1 ≤ c) :
    min (min a max32 * c) max32 = min (a * c) max32 := by
  rcases le_total a max32 with h | h
  · rw [min_eq_left h]
  · have hle : max32 ≤ max32 * c := Nat.le_mul_of_pos_right _ hc
    have hle' : max32 * c ≤ a * c := Nat.mul_le_mul_right _ h
    rw [min_eq_right h, min_eq_right hle, min_eq_right (hle.trans hle')]

/-- Two saturating products stop where the exact product of the three does. -/
theorem toNat_satMul_satMul (a b : UInt32) {c : UInt32} (hc : 1 ≤ c.toNat) :
    (satMul (satMul a b) c).toNat = min (a.toNat * b.toNat * c.toNat) max32 := by
  rw [toNat_satMul, toNat_satMul, min_mul_max32 _ hc]

/-- A saturating sum stops at the largest word, wherever it reaches it. -/
theorem toNat_foldl_satAdd (l : List UInt32) (a : UInt32) :
    (l.foldl satAdd a).toNat = min (a.toNat + (l.map UInt32.toNat).sum) max32 := by
  induction l generalizing a with
  | nil => simp [toNat_le_max32 a]
  | cons b l ih =>
      rw [List.foldl_cons, ih, toNat_satAdd, List.map_cons, List.sum_cons]
      omega

/-- Division rounded up, with the division by zero yielding zero. -/
def ceilDiv (a b : UInt32) : UInt32 :=
  if b = 0 then 0 else
  let q := a / b
  if a % b = 0 then q else q + 1

theorem ceilDiv_le_iff {a b n : UInt32} (hb : 1 ≤ b.toNat) :
    ceilDiv a b ≤ n ↔ a.toNat ≤ n.toNat * b.toNat := by
  have hb0 : b ≠ 0 := by
    rintro rfl
    simp at hb
  have hdiv : a.toNat / b.toNat * b.toNat + a.toNat % b.toNat = a.toNat :=
    Nat.div_add_mod' a.toNat b.toNat
  have hmod : a.toNat % b.toNat < b.toNat := Nat.mod_lt _ hb
  have hzero : a % b = 0 ↔ a.toNat % b.toNat = 0 := by
    rw [← UInt32.toNat_inj, UInt32.toNat_mod]
    rfl
  rw [UInt32.le_iff_toNat_le, ceilDiv, if_neg hb0]
  by_cases h : a % b = 0
  · have hr := hzero.mp h
    have hexact : a.toNat / b.toNat * b.toNat = a.toNat := by omega
    simp only [h, if_true, UInt32.toNat_div]
    rw [← Nat.mul_le_mul_right_iff hb, hexact]
  · have hr : 0 < a.toNat % b.toNat := Nat.pos_of_ne_zero (mt hzero.mpr h)
    have hq : a.toNat / b.toNat ≤ a.toNat / b.toNat * b.toNat := Nat.le_mul_of_pos_right _ hb
    have hlt := a.toNat_lt
    have hsucc : (a / b + 1).toNat = a.toNat / b.toNat + 1 := by
      rw [UInt32.toNat_add, UInt32.toNat_div]
      exact Nat.mod_eq_of_lt (by simp only [UInt32.toNat_one]; omega)
    simp only [h, if_false, hsucc]
    constructor
    · intro hle
      have hmul := Nat.mul_le_mul_right b.toNat hle
      rw [Nat.add_mul, Nat.one_mul] at hmul
      omega
    · intro hle
      by_contra hgt
      have hmul : n.toNat * b.toNat ≤ a.toNat / b.toNat * b.toNat :=
        Nat.mul_le_mul_right _ (by omega)
      omega

/-- No quotient leaves the word. -/
theorem toNat_ceilDiv (a b : UInt32) : (ceilDiv a b).toNat = a.toNat ⌈/⌉ b.toNat := by
  by_cases hb : b = 0
  · subst hb
    rw [ceilDiv, if_pos rfl, UInt32.toNat_zero, ceilDiv_zero]
  · have hpos : 1 ≤ b.toNat := Nat.one_le_iff_ne_zero.mpr fun h ↦ hb (UInt32.toNat_inj.mp h)
    apply eq_of_forall_ge_iff
    intro n
    rw [ceilDiv_le_iff_le_mul hpos, Nat.mul_comm]
    by_cases hn : n ≤ max32
    · have hword := ceilDiv_le_iff (a := a) (n := .ofNat n) hpos
      rwa [UInt32.le_iff_toNat_le, toNat_ofNat_of_le hn] at hword
    · have ha := toNat_le_max32 a
      have hle : n ≤ n * b.toNat := Nat.le_mul_of_pos_right n hpos
      have hquotient := toNat_le_max32 (ceilDiv a b)
      exact iff_of_true (by omega) (by omega)

end CalxMill.Rust.U32
