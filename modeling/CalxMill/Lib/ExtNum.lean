import Mathlib.Algebra.Order.Field.Basic
import Mathlib.Algebra.Order.AbsoluteValue.Basic
import Mathlib.Data.List.Sort

/-!
# Numbers with the IEEE special values

A linearly ordered field with the two infinities and NaN adjoined.
Arithmetic is exact on the finite values, and a comparison with NaN on
either side is false.  The field has one zero, so the sign of a zero is not
represented.
-/

namespace CalxMill.Lib

inductive ExtNum (K : Type*) where
  | nan
  | inf (neg : Bool)
  | fin (x : K)
  deriving DecidableEq

namespace ExtNum

variable {K : Type*}

/-- The number itself; a special value reads as zero. -/
def val [Zero K] : ExtNum K → K
  | fin x => x
  | _ => 0

@[simp] theorem val_fin [Zero K] (x : K) : (fin x).val = x := rfl

theorem map_fin_val [Zero K] {l : List (ExtNum K)} (h : ∀ a ∈ l, ∃ x, a = fin x) :
    (l.map val).map fin = l := by
  rw [List.map_map]
  conv_rhs => rw [← List.map_id l]
  apply List.map_congr_left
  intro a ha
  obtain ⟨x, rfl⟩ := h a ha
  rfl

/-! ## Comparisons -/

section Order

variable [LinearOrder K]

def Le : ExtNum K → ExtNum K → Prop
  | fin x, fin y => x ≤ y
  | inf true, fin _ => True
  | inf true, inf _ => True
  | fin _, inf false => True
  | inf false, inf false => True
  | _, _ => False

def Lt : ExtNum K → ExtNum K → Prop
  | fin x, fin y => x < y
  | inf true, fin _ => True
  | inf true, inf false => True
  | fin _, inf false => True
  | _, _ => False

instance : LE (ExtNum K) := ⟨Le⟩

instance : LT (ExtNum K) := ⟨Lt⟩

instance decidableLe : (a b : ExtNum K) → Decidable (a ≤ b)
  | fin x, fin y => inferInstanceAs (Decidable (x ≤ y))
  | inf true, fin _ => isTrue trivial
  | inf true, inf _ => isTrue trivial
  | fin _, inf false => isTrue trivial
  | inf false, inf false => isTrue trivial
  | nan, _ => isFalse nofun
  | inf true, nan => isFalse nofun
  | inf false, nan => isFalse nofun
  | inf false, inf true => isFalse nofun
  | inf false, fin _ => isFalse nofun
  | fin _, nan => isFalse nofun
  | fin _, inf true => isFalse nofun

instance decidableLt : (a b : ExtNum K) → Decidable (a < b)
  | fin x, fin y => inferInstanceAs (Decidable (x < y))
  | inf true, fin _ => isTrue trivial
  | inf true, inf false => isTrue trivial
  | fin _, inf false => isTrue trivial
  | nan, _ => isFalse nofun
  | inf true, nan => isFalse nofun
  | inf true, inf true => isFalse nofun
  | inf false, _ => isFalse nofun
  | fin _, nan => isFalse nofun
  | fin _, inf true => isFalse nofun

/-- IEEE equality: NaN is not equal to itself. -/
def feq [DecidableEq K] (a b : ExtNum K) : Bool :=
  a != nan && a == b

@[simp] theorem fin_le_fin (x y : K) : (fin x : ExtNum K) ≤ fin y ↔ x ≤ y := Iff.rfl

@[simp] theorem fin_lt_fin (x y : K) : (fin x : ExtNum K) < fin y ↔ x < y := Iff.rfl

@[simp] theorem not_nan_le (a : ExtNum K) : ¬ (nan : ExtNum K) ≤ a := nofun

@[simp] theorem not_le_nan (a : ExtNum K) : ¬ a ≤ (nan : ExtNum K) := by
  rcases a with _ | (_ | _) | _ <;> exact nofun

@[simp] theorem not_nan_lt (a : ExtNum K) : ¬ (nan : ExtNum K) < a := nofun

@[simp] theorem not_lt_nan (a : ExtNum K) : ¬ a < (nan : ExtNum K) := by
  rcases a with _ | (_ | _) | _ <;> exact nofun

/-- Off NaN the two comparisons are each other's negation. -/
theorem not_lt_iff_le {a b : ExtNum K} (ha : a ≠ nan) (hb : b ≠ nan) :
    ¬ a < b ↔ b ≤ a := by
  rcases a with _ | (_ | _) | x
  · exact absurd rfl ha
  all_goals rcases b with _ | (_ | _) | y
  all_goals first
    | exact absurd rfl hb
    | exact ⟨fun _ ↦ trivial, fun _ ↦ nofun⟩
    | exact ⟨fun h ↦ absurd trivial h, nofun⟩
    | exact not_lt

theorem not_lt_of_le {a b : ExtNum K} (h : a ≤ b) : ¬ b < a := by
  have ha : a ≠ nan := by
    rintro rfl
    exact not_nan_le b h
  have hb : b ≠ nan := by
    rintro rfl
    exact not_le_nan a h
  exact (not_lt_iff_le hb ha).mpr h

theorem le_trans {a b c : ExtNum K} (hab : a ≤ b) (hbc : b ≤ c) : a ≤ c := by
  rcases a with _ | (_ | _) | x <;> rcases b with _ | (_ | _) | y <;>
    rcases c with _ | (_ | _) | z
  all_goals first
    | exact False.elim hab
    | exact False.elim hbc
    | trivial
    | exact Preorder.le_trans x y z hab hbc

theorem le_total {a b : ExtNum K} (ha : a ≠ nan) (hb : b ≠ nan) : a ≤ b ∨ b ≤ a := by
  rcases a with _ | (_ | _) | x
  · exact absurd rfl ha
  all_goals rcases b with _ | (_ | _) | y
  all_goals first
    | exact absurd rfl hb
    | exact Or.inl trivial
    | exact Or.inr trivial
    | exact LinearOrder.le_total x y

theorem le_antisymm {a b : ExtNum K} (hab : a ≤ b) (hba : b ≤ a) : a = b := by
  rcases a with _ | (_ | _) | x <;> rcases b with _ | (_ | _) | y
  all_goals first
    | exact False.elim hab
    | exact False.elim hba
    | rfl
    | exact congrArg fin (PartialOrder.le_antisymm x y hab hba)

/-- Sorting puts numbers and infinities in order. -/
theorem pairwise_insertionSort {l : List (ExtNum K)} (h : ∀ a ∈ l, a ≠ nan) :
    (l.insertionSort (· ≤ ·)).Pairwise (· ≤ ·) := by
  let le (a b : {a : ExtNum K // a ≠ nan}) : Prop := a.val ≤ b.val
  have htotal : Std.Total le := ⟨fun a b ↦ le_total a.2 b.2⟩
  have htrans : IsTrans _ le := ⟨fun _ _ _ ↦ le_trans⟩
  have hval : l = (l.attachWith _ h).map Subtype.val := by simp
  have hsort := List.map_insertionSort le (· ≤ ·) Subtype.val (l.attachWith _ h)
    fun _ _ _ _ ↦ Iff.rfl
  rw [hval, ← hsort, List.pairwise_map]
  exact List.pairwise_insertionSort le _

/-- The larger operand; a NaN operand is ignored. -/
def fmax (a b : ExtNum K) : ExtNum K :=
  if a = nan then b else if a < b then b else a

/-- The smaller operand; a NaN operand is ignored. -/
def fmin (a b : ExtNum K) : ExtNum K :=
  if a = nan then b else if b < a then b else a

@[simp] theorem fmax_fin (x y : K) : (fin x : ExtNum K).fmax (fin y) = fin (max x y) := by
  by_cases h : x < y
  · simp [fmax, h, max_eq_right h.le]
  · simp [fmax, h, max_eq_left (not_lt.mp h)]

@[simp] theorem fmin_fin (x y : K) : (fin x : ExtNum K).fmin (fin y) = fin (min x y) := by
  by_cases h : y < x
  · simp [fmin, h, min_eq_right h.le]
  · simp [fmin, h, min_eq_left (not_lt.mp h)]

/-- The scan for the largest number, from the negative infinity. -/
theorem foldl_fmax_fin {l : List K} (hl : l ≠ []) :
    ∃ x ∈ l, (∀ y ∈ l, y ≤ x) ∧ (l.map fin).foldl fmax (inf true) = fin x := by
  obtain ⟨a, l, rfl⟩ := List.exists_cons_of_ne_nil hl
  have hmax : (a :: l).max? = some (l.foldl max a) := List.max?_cons'
  obtain ⟨hmem, hle⟩ := List.max?_eq_some_iff.mp hmax
  refine ⟨_, hmem, hle, ?_⟩
  have hstart : (inf true : ExtNum K).fmax (fin a) = fin a := rfl
  rw [List.map_cons, List.foldl_cons, hstart, List.foldl_map]
  exact List.foldl_hom fin fun x y ↦ fmax_fin x y

/-- The scan for the smallest number, from the positive infinity. -/
theorem foldl_fmin_fin {l : List K} (hl : l ≠ []) :
    ∃ x ∈ l, (∀ y ∈ l, x ≤ y) ∧ (l.map fin).foldl fmin (inf false) = fin x := by
  obtain ⟨a, l, rfl⟩ := List.exists_cons_of_ne_nil hl
  have hmin : (a :: l).min? = some (l.foldl min a) := List.min?_cons'
  obtain ⟨hmem, hle⟩ := List.min?_eq_some_iff.mp hmin
  refine ⟨_, hmem, hle, ?_⟩
  have hstart : (inf false : ExtNum K).fmin (fin a) = fin a := rfl
  rw [List.map_cons, List.foldl_cons, hstart, List.foldl_map]
  exact List.foldl_hom fin fun x y ↦ fmin_fin x y

theorem insertionSort_map_fin (l : List K) :
    (l.map fin).insertionSort (· ≤ ·) = (l.insertionSort (· ≤ ·)).map fin :=
  (List.map_insertionSort _ _ fin l fun _ _ _ _ ↦ Iff.rfl).symm

end Order

/-! ## Arithmetic -/

section Additive

variable [Field K]

instance : Zero (ExtNum K) := ⟨fin 0⟩

protected def neg : ExtNum K → ExtNum K
  | nan => nan
  | inf s => inf (!s)
  | fin x => fin (-x)

protected def add : ExtNum K → ExtNum K → ExtNum K
  | fin x, fin y => fin (x + y)
  | nan, _ => nan
  | _, nan => nan
  | inf s, inf t => if s = t then inf s else nan
  | inf s, fin _ => inf s
  | fin _, inf t => inf t

instance : Neg (ExtNum K) := ⟨ExtNum.neg⟩

instance : Add (ExtNum K) := ⟨ExtNum.add⟩

instance : Sub (ExtNum K) := ⟨fun a b ↦ a + -b⟩

@[simp] theorem zero_def : (0 : ExtNum K) = fin 0 := rfl

@[simp] theorem fin_add (x y : K) : (fin x + fin y : ExtNum K) = fin (x + y) := rfl

@[simp] theorem fin_sub (x y : K) : (fin x - fin y : ExtNum K) = fin (x - y) :=
  congrArg fin (sub_eq_add_neg x y).symm

end Additive

section Multiplicative

variable [Field K] [LinearOrder K]

protected def mul : ExtNum K → ExtNum K → ExtNum K
  | fin x, fin y => fin (x * y)
  | nan, _ => nan
  | _, nan => nan
  | inf s, inf t => inf (s != t)
  | inf s, fin y => if y = 0 then nan else inf (s != decide (y < 0))
  | fin x, inf t => if x = 0 then nan else inf (decide (x < 0) != t)

protected def div : ExtNum K → ExtNum K → ExtNum K
  | fin x, fin y => if y = 0 then (if x = 0 then nan else inf (decide (x < 0))) else fin (x / y)
  | nan, _ => nan
  | _, nan => nan
  | inf _, inf _ => nan
  | inf s, fin y => inf (s != decide (y < 0))
  | fin _, inf _ => fin 0

instance : Mul (ExtNum K) := ⟨ExtNum.mul⟩

instance : Div (ExtNum K) := ⟨ExtNum.div⟩

def abs : ExtNum K → ExtNum K
  | nan => nan
  | inf _ => inf false
  | fin x => fin |x|

@[simp] theorem fin_mul (x y : K) : (fin x * fin y : ExtNum K) = fin (x * y) := rfl

theorem fin_div (x : K) {y : K} (hy : y ≠ 0) : (fin x / fin y : ExtNum K) = fin (x / y) :=
  if_neg hy

theorem eq_fin_of_div {a : ExtNum K} {x y : K} (h : a / fin y = fin x) : ∃ q, a = fin q := by
  cases a with
  | nan => exact absurd h nofun
  | inf neg => exact absurd h nofun
  | fin q => exact ⟨q, rfl⟩

theorem eq_fin_of_mul {a : ExtNum K} {x z : K} (h : a * fin z = fin x) : ∃ q, a = fin q := by
  cases a with
  | nan => exact absurd h nofun
  | inf neg =>
      change (if z = 0 then nan else inf _ : ExtNum K) = fin x at h
      split at h
      · exact absurd h nofun
      · exact absurd h nofun
  | fin q => exact ⟨q, rfl⟩

theorem fin_div_zero {x : K} (hx : x ≠ 0) :
    (fin x / fin 0 : ExtNum K) = inf (decide (x < 0)) := by
  change (if (0 : K) = 0 then if x = 0 then nan else inf (decide (x < 0)) else fin (x / 0)) = _
  rw [if_pos rfl, if_neg hx]

@[simp] theorem zero_div_zero : (fin 0 / fin 0 : ExtNum K) = nan := by
  change (if (0 : K) = 0 then if (0 : K) = 0 then nan else inf _ else fin (0 / 0)) = _
  rw [if_pos rfl, if_pos rfl]

@[simp] theorem abs_nan : (nan : ExtNum K).abs = nan := rfl

@[simp] theorem abs_inf (neg : Bool) : (inf neg : ExtNum K).abs = inf false := rfl

@[simp] theorem abs_fin (x : K) : (fin x : ExtNum K).abs = fin |x| := rfl

end Multiplicative

/-! ## Values that are not negative

`¬ a < 0` is what a sign check leaves: the non-negative numbers, the positive
infinity and NaN.  It is closed under the operations a tolerance goes
through. -/

section NotNegative

variable [Field K] [LinearOrder K] [IsStrictOrderedRing K]

theorem not_abs_lt_zero (a : ExtNum K) : ¬ a.abs < 0 := by
  rcases a with _ | _ | x
  · exact nofun
  · exact nofun
  · exact not_lt.mpr (abs_nonneg x)

theorem abs_of_not_lt_zero {a : ExtNum K} (h : ¬ a < 0) : a.abs = a := by
  rcases a with _ | (_ | _) | x
  · rfl
  · rfl
  · exact absurd trivial h
  · exact congrArg fin (abs_of_nonneg (not_lt.mp h))

theorem not_mul_lt_zero {a b : ExtNum K} (ha : ¬ a < 0) (hb : ¬ b < 0) : ¬ a * b < 0 := by
  rcases a with _ | (_ | _) | x
  · exact nofun
  · rcases b with _ | (_ | _) | y
    · exact nofun
    · exact nofun
    · exact absurd trivial hb
    · have hy : ¬ y < 0 := hb
      change ¬ (if y = 0 then nan else inf (false != decide (y < 0)) : ExtNum K) < 0
      split
      · exact nofun
      · simp only [hy, decide_false, bne_self_eq_false]
        exact nofun
  · exact absurd trivial ha
  · have hx : ¬ x < 0 := ha
    rcases b with _ | (_ | _) | y
    · exact nofun
    · change ¬ (if x = 0 then nan else inf (decide (x < 0) != false) : ExtNum K) < 0
      split
      · exact nofun
      · simp only [hx, decide_false, bne_self_eq_false]
        exact nofun
    · exact absurd trivial hb
    · exact not_lt.mpr (mul_nonneg (not_lt.mp ha) (not_lt.mp hb))

theorem not_div_fin_lt_zero {a : ExtNum K} {y : K} (ha : ¬ a < 0) (hy : 0 < y) :
    ¬ a / fin y < 0 := by
  rcases a with _ | (_ | _) | x
  · exact nofun
  · change ¬ (inf (false != decide (y < 0)) : ExtNum K) < 0
    simp only [not_lt.mpr hy.le, decide_false, bne_self_eq_false]
    exact nofun
  · exact absurd trivial ha
  · rw [fin_div x hy.ne']
    exact not_lt.mpr (div_nonneg (not_lt.mp ha) hy.le)

end NotNegative

/-! ## Relative errors -/

section Relative

variable [Field K] [LinearOrder K]

theorem exists_of_abs_le {a : ExtNum K} {t : K} (h : a.abs ≤ fin t) :
    ∃ q, a = fin q ∧ |q| ≤ t := by
  cases a with
  | nan => exact absurd h (not_nan_le _)
  | inf neg => exact absurd h nofun
  | fin q => exact ⟨q, rfl, h⟩

/-- A bounded relative error is one between two numbers. -/
theorem abs_relative_le_iff [IsStrictOrderedRing K] {p m : ExtNum K} {t : K} :
    ((p - m) / m).abs ≤ fin t ↔
      ∃ x y, p = fin x ∧ m = fin y ∧ y ≠ 0 ∧ |x - y| ≤ t * |y| := by
  constructor
  · intro h
    obtain ⟨q, hq, hle⟩ := exists_of_abs_le h
    cases m with
    | nan => cases p <;> exact absurd hq nofun
    | inf neg =>
        cases p with
        | nan => exact absurd hq nofun
        | inf neg' => cases neg <;> cases neg' <;> exact absurd hq nofun
        | fin x => exact absurd hq nofun
    | fin y =>
        cases p with
        | nan => exact absurd hq nofun
        | inf neg => exact absurd hq nofun
        | fin x =>
            rw [fin_sub] at hq
            by_cases hy : y = 0
            · subst hy
              by_cases hx : x = 0
              · subst hx
                rw [sub_zero, zero_div_zero] at hq
                cases hq
              · rw [sub_zero, fin_div_zero hx] at hq
                cases hq
            · rw [fin_div _ hy] at hq
              obtain rfl := fin.inj hq
              refine ⟨x, y, rfl, rfl, hy, ?_⟩
              rwa [abs_div, div_le_iff₀ (abs_pos.mpr hy)] at hle
  · rintro ⟨x, y, rfl, rfl, hy, hle⟩
    rw [fin_sub, fin_div _ hy, abs_fin, fin_le_fin, abs_div, div_le_iff₀ (abs_pos.mpr hy)]
    exact hle

/-- Bounds that are not exceeded add up. -/
theorem not_add_lt_fin [IsStrictOrderedRing K] {a b : ExtNum K} {x y z : K} (ha : ¬ a < fin x)
    (hb : ¬ b < fin y) (h : z ≤ x + y) : ¬ a + b < fin z := by
  cases a with
  | nan => exact not_nan_lt _
  | inf neg =>
      cases neg with
      | true => exact absurd trivial ha
      | false =>
          cases b with
          | nan => exact not_nan_lt _
          | inf neg =>
              cases neg with
              | true => exact absurd trivial hb
              | false => exact nofun
          | fin v => exact nofun
  | fin u =>
      cases b with
      | nan => exact not_nan_lt _
      | inf neg =>
          cases neg with
          | true => exact absurd trivial hb
          | false => exact nofun
      | fin v =>
          have hu : x ≤ u := not_lt.mp ha
          have hv : y ≤ v := not_lt.mp hb
          exact not_lt.mpr (h.trans (add_le_add hu hv))

end Relative

end ExtNum

end CalxMill.Lib
