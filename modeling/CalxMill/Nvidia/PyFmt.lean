import CalxMill.Rust.Float
import Mathlib.Data.Int.Log
import Mathlib.Tactic.NormNum

/-!
# Number formats of the reference tools

`g6` is the `%.6g` form: six significant digits without trailing zeros, and an
exponent when the number is below a ten-thousandth or has more than six digits
in front of the point.
-/

namespace CalxMill.Nvidia

open Lib Rust

/-- The `{:.5e}` form of a positive number: its six digits and the exponent. -/
def scientific (q : ℚ) : ℕ × ℤ :=
  let e := Int.log 10 q
  let n := F64.roundEven (q * F64.scale 1 (5 - e))
  if n = 10 ^ 6 then (10 ^ 5, e + 1) else (n, e)

def trimZeros (digits : Str) : Str := digits.rdropWhile (· = '0')

def g6Body (digits : Str) (exp : ℤ) : Str :=
  if exp < -4 ∨ 6 ≤ exp then
    let trimmed := trimZeros digits
    let mantissa := match trimmed with
      | head :: t :: tail => head :: '.' :: t :: tail
      | _ => trimmed
    let sign := if exp < 0 then '-' else '+'
    let e := natStr exp.natAbs
    mantissa ++ 'e' :: sign :: (List.replicate (2 - e.length) '0' ++ e)
  else if 0 ≤ exp then
    let point := exp.toNat + 1
    if digits.length ≤ point then digits
    else
      let frac := trimZeros (digits.drop point)
      if frac = [] then digits.take point else digits.take point ++ '.' :: frac
  else lit "0." ++ List.replicate (-exp - 1).toNat '0' ++ trimZeros digits

def g6 : F64 → Str
  | .nan => "nan"
  | .inf neg => if neg then "-inf" else "inf"
  | .fin q =>
      if q = 0 then "0" else
      let (n, exp) := scientific |q|
      let body := g6Body (natStr n) exp
      if q < 0 then '-' :: body else body

example : g6 (.fin 0.0526396) = "0.0526396" := by decide +kernel

example : g6 (.fin (-1234567)) = "-1.23457e+06" := by decide +kernel

/-! ## A formatted number reads back rounded -/

/-- The nearest number of six significant digits, ties to even. -/
def sixDigits (q : ℚ) : ℚ :=
  let unit := (10 : ℚ) ^ (Int.log 10 |q| - 5)
  let r := F64.roundEven (|q| / unit) * unit
  if q < 0 then -r else r

theorem abs_sixDigits_sub_le (q : ℚ) :
    |sixDigits q - q| ≤ (10 : ℚ) ^ (Int.log 10 |q| - 5) / 2 := by
  have hunit : (0 : ℚ) < 10 ^ (Int.log 10 |q| - 5) := zpow_pos (by norm_num) _
  rw [sixDigits]
  generalize (10 : ℚ) ^ (Int.log 10 |q| - 5) = unit at hunit
  have hround := F64.abs_roundEven_sub_le (div_nonneg (abs_nonneg q) hunit.le)
  generalize (F64.roundEven (|q| / unit) : ℚ) = r at hround
  have hr : |r * unit - abs q| ≤ unit / 2 := by
    have hscaled : r * unit - |q| = (r - |q| / unit) * unit := by
      rw [sub_mul, div_mul_cancel₀ _ hunit.ne']
    rw [hscaled, abs_mul, abs_of_pos hunit]
    linarith [mul_le_mul_of_nonneg_right hround hunit.le]
  split
  next hq =>
    rw [abs_of_neg hq] at hr
    rw [← abs_neg]
    convert hr using 2
    ring
  next hq => rwa [abs_of_nonneg (not_lt.mp hq)] at hr

theorem natStr_isDigit (n : ℕ) : ∀ c ∈ natStr n, c.isDigit :=
  fun _ hc ↦ Nat.isDigit_of_mem_toDigits (by decide) (by decide) hc

theorem exists_trimZeros (ds : Str) : ∃ k, ds = trimZeros ds ++ List.replicate k '0' := by
  have hsplit := List.rdropWhile_append_rtakeWhile (p := fun c : Char ↦ c = '0') (l := ds)
  have hzeros : ds.rtakeWhile (fun c : Char ↦ c = '0') =
      List.replicate (ds.rtakeWhile fun c : Char ↦ c = '0').length '0' :=
    List.eq_replicate_of_mem fun c hc ↦ by simpa using List.mem_rtakeWhile_imp hc
  exact ⟨_, hzeros ▸ hsplit.symm⟩

theorem mem_trimZeros {ds : Str} {c : Char} (h : c ∈ trimZeros ds) : c ∈ ds :=
  (List.rdropWhile_prefix _ ds).subset h

theorem trimZeros_ne_nil {n : ℕ} (hn : n ≠ 0) : trimZeros (natStr n) ≠ [] := by
  intro h
  obtain ⟨k, hk⟩ := exists_trimZeros (natStr n)
  rw [h, List.nil_append] at hk
  apply hn
  rw [← F64.digitsValue_natStr n, hk, F64.digitsValue_zeros]

/-- The scaled number lies between the least and the greatest of six digits. -/
theorem scaled_bounds {q : ℚ} (hq : 0 < q) :
    (10 : ℚ) ^ 5 ≤ q * F64.scale 1 (5 - Int.log 10 q) ∧
      q * F64.scale 1 (5 - Int.log 10 q) < (10 : ℚ) ^ 6 := by
  have hten : (0 : ℚ) < 10 ^ (5 - Int.log 10 q) := zpow_pos (by norm_num) _
  have hlow : (10 : ℚ) ^ Int.log 10 q ≤ q := by
    exact_mod_cast Int.zpow_log_le_self (by norm_num) hq
  have hhigh : q < (10 : ℚ) ^ (Int.log 10 q + 1) := by
    exact_mod_cast Int.lt_zpow_succ_log_self (by norm_num) q
  rw [F64.scale_eq, Nat.cast_one, one_mul]
  constructor
  · calc (10 : ℚ) ^ 5 = 10 ^ Int.log 10 q * 10 ^ (5 - Int.log 10 q) := by
          rw [← zpow_add₀ (by norm_num), add_sub_cancel]
          norm_num
      _ ≤ q * 10 ^ (5 - Int.log 10 q) := mul_le_mul_of_nonneg_right hlow hten.le
  · calc q * 10 ^ (5 - Int.log 10 q) <
          10 ^ (Int.log 10 q + 1) * 10 ^ (5 - Int.log 10 q) := mul_lt_mul_of_pos_right hhigh hten
      _ = 10 ^ (6 : ℤ) := by
          rw [← zpow_add₀ (by norm_num)]
          congr 1
          ring

theorem scientific_bounds {q : ℚ} (hq : 0 < q) :
    10 ^ 5 ≤ (scientific q).1 ∧ (scientific q).1 < 10 ^ 6 := by
  obtain ⟨hlow, hhigh⟩ := scaled_bounds hq
  have hle : 10 ^ 5 ≤ F64.roundEven (q * F64.scale 1 (5 - Int.log 10 q)) :=
    F64.le_roundEven (by exact_mod_cast hlow)
  have hge : F64.roundEven (q * F64.scale 1 (5 - Int.log 10 q)) ≤ 10 ^ 6 :=
    F64.roundEven_le (by exact_mod_cast hhigh.le)
  unfold scientific
  dsimp only
  split
  next => exact ⟨le_rfl, by norm_num⟩
  next hne => exact ⟨hle, lt_of_le_of_ne hge hne⟩

/-- The digits and the exponent stand for the rounded number. -/
theorem scale_scientific (q : ℚ) : F64.scale (scientific q).1 ((scientific q).2 - 5) =
    F64.roundEven (q / 10 ^ (Int.log 10 q - 5)) * 10 ^ (Int.log 10 q - 5) := by
  have hscaled : q * F64.scale 1 (5 - Int.log 10 q) = q / 10 ^ (Int.log 10 q - 5) := by
    rw [F64.scale_eq, Nat.cast_one, one_mul, div_eq_mul_inv, ← zpow_neg, neg_sub]
  unfold scientific
  dsimp only
  rw [hscaled]
  split
  next hround =>
    have hcarry : Int.log 10 q + 1 - 5 = Int.log 10 q - 5 + 1 := by ring
    rw [hround, F64.scale_eq, hcarry, zpow_add₀ (by norm_num)]
    push_cast
    ring
  next => rw [F64.scale_eq]

theorem length_natStr {n : ℕ} (hlow : 10 ^ 5 ≤ n) (hhigh : n < 10 ^ 6) : (natStr n).length = 6 := by
  have hle : (natStr n).length ≤ 6 := (Nat.length_toDigits_le_iff (by decide) (by decide)).mpr hhigh
  have hge : ¬ (natStr n).length ≤ 5 := by
    rw [natStr, Nat.length_toDigits_le_iff (by decide) (by decide)]
    omega
  omega

theorem pad_isDigit {k : ℕ} {ds : Str} (h : ∀ c ∈ ds, c.isDigit) :
    ∀ c ∈ List.replicate k '0' ++ ds, c.isDigit := by
  intro c hc
  rcases List.mem_append.mp hc with hc | hc
  · rw [List.eq_of_mem_replicate hc]
    decide
  · exact h c hc

/-- The exponent mark of a formatted number. -/
def expMark (exp : ℤ) : Str :=
  let e := natStr exp.natAbs
  'e' :: (if exp < 0 then '-' else '+') :: (List.replicate (2 - e.length) '0' ++ e)

theorem expTail_expMark (exp : ℤ) :
    F64.ExpTail (expMark exp) ∧ F64.exponent (expMark exp) = some exp := by
  have hparse : F64.exponent (expMark exp) = some exp := by
    have hpad : ∀ c ∈ List.replicate (2 - (natStr exp.natAbs).length) '0' ++ natStr exp.natAbs,
        c.isDigit := pad_isDigit (natStr_isDigit _)
    rw [expMark, F64.exponent, F64.parseExp_eq (by split <;> simp) (by simp [natStr]) hpad,
      F64.digitsValue_zeros_append, F64.digitsValue_natStr]
    by_cases hneg : exp < 0
    · rw [if_pos hneg, if_pos rfl]
      exact congrArg some (by omega)
    · rw [if_neg hneg, if_neg (by decide)]
      exact congrArg some (by omega)
  have hsome : (F64.exponent (expMark exp)).isSome := by rw [hparse, Option.isSome_some]
  exact ⟨Or.inr ⟨_, rfl, hsome⟩, hparse⟩

/-- The zeros that are cut off count against the power of ten. -/
theorem exists_scale_trimZeros (i ds : Str) : ∃ k : ℕ, (trimZeros ds).length + k = ds.length ∧
    ∀ z, F64.scale (F64.digitsValue (i ++ ds)) z =
      F64.scale (F64.digitsValue (i ++ trimZeros ds)) (z + k) := by
  obtain ⟨k, hk⟩ := exists_trimZeros ds
  have hlength := congrArg List.length hk
  rw [List.length_append, List.length_replicate] at hlength
  refine ⟨k, hlength.symm, fun z ↦ ?_⟩
  rw [← F64.scale_append_zeros, List.append_assoc, ← hk]

/-- An integer part and the digits behind the point, if there are any. -/
theorem parseNumber_point {i frac : Str} (hne : i ≠ []) (hint : ∀ c ∈ i, c.isDigit)
    (hfrac : ∀ c ∈ frac, c.isDigit) :
    F64.parseNumber (if frac = [] then i else i ++ '.' :: frac) =
      some (F64.scale (F64.digitsValue (i ++ frac)) (-frac.length)) := by
  have hnil : F64.ExpTail [] := Or.inl rfl
  split
  next hempty =>
    subst hempty
    have hnumber := F64.parseNumber_int hne hint hnil
    rw [List.append_nil] at hnumber
    rw [hnumber, List.append_nil]
    rfl
  next =>
    have hnumber := F64.parseNumber_frac hne hint hfrac hnil
    rw [List.append_nil] at hnumber
    rw [hnumber, F64.exponent, Option.map_some, zero_sub]

variable {digits : Str} {e : ℤ}

/-- With an exponent. -/
theorem g6Body_exp (hdigits : ∀ c ∈ digits, c.isDigit) (hlen : digits.length = 6)
    (htrim : trimZeros digits ≠ []) (he : e < -4 ∨ 6 ≤ e) :
    ∃ c s, g6Body digits e = c :: s ∧ c.isDigit ∧
      F64.parseNumber (c :: s) = some (F64.scale (F64.digitsValue digits) (e - 5)) := by
  obtain ⟨k, hcount, hvalue⟩ := exists_scale_trimZeros [] digits
  simp only [List.nil_append] at hvalue
  obtain ⟨htail, hexp⟩ := expTail_expMark e
  have htrimmed : ∀ c ∈ trimZeros digits, c.isDigit := fun c hc ↦ hdigits c (mem_trimZeros hc)
  obtain ⟨c, ds, hds⟩ := List.exists_cons_of_ne_nil htrim
  rw [hds] at htrimmed hcount
  obtain ⟨hc, hdigit⟩ := List.forall_mem_cons.mp htrimmed
  cases ds with
  | nil =>
      have hbody : g6Body digits e = c :: ([] ++ expMark e) := by
        simp only [g6Body, if_pos he, hds]
        rfl
      refine ⟨c, _, hbody, hc, ?_⟩
      have hnumber := F64.parseNumber_int (List.cons_ne_nil c []) htrimmed htail
      rw [hexp] at hnumber
      rw [hvalue, hds, List.nil_append, ← List.singleton_append, hnumber, Option.map_some]
      congr 2
      rw [List.length_singleton] at hcount
      omega
  | cons d ds =>
      have hbody : g6Body digits e = c :: ('.' :: (d :: ds ++ expMark e)) := by
        simp only [g6Body, if_pos he, hds]
        rfl
      refine ⟨c, _, hbody, hc, ?_⟩
      have hnumber := F64.parseNumber_frac (List.cons_ne_nil c []) (by simpa using hc) hdigit htail
      rw [hexp] at hnumber
      rw [hvalue, hds, ← List.singleton_append, hnumber, Option.map_some]
      congr 2
      rw [List.length_cons] at hcount
      omega

theorem g6Body_eq_point (hlow : 0 ≤ e) (hhigh : e < 6) : g6Body digits e =
    if trimZeros (digits.drop (e.toNat + 1)) = [] then digits.take (e.toNat + 1)
    else digits.take (e.toNat + 1) ++ '.' :: trimZeros (digits.drop (e.toNat + 1)) := by
  have hexp : ¬ (e < -4 ∨ 6 ≤ e) := by omega
  rw [g6Body, if_neg hexp, if_pos hlow]
  dsimp only
  split
  next hle =>
    rw [List.drop_eq_nil_of_le hle, List.take_of_length_le hle]
    rfl
  next => rfl

/-- With an integer part and no exponent. -/
theorem g6Body_point (hdigits : ∀ c ∈ digits, c.isDigit) (hlen : digits.length = 6)
    (hlow : 0 ≤ e) (hhigh : e < 6) :
    ∃ c s, g6Body digits e = c :: s ∧ c.isDigit ∧
      F64.parseNumber (c :: s) = some (F64.scale (F64.digitsValue digits) (e - 5)) := by
  have hint : ∀ c ∈ digits.take (e.toNat + 1), c.isDigit :=
    fun c hc ↦ hdigits c (List.mem_of_mem_take hc)
  have hfrac : ∀ c ∈ trimZeros (digits.drop (e.toNat + 1)), c.isDigit :=
    fun c hc ↦ hdigits c (List.mem_of_mem_drop (mem_trimZeros hc))
  have hne : digits.take (e.toNat + 1) ≠ [] := by
    intro h
    have hlength := congrArg List.length h
    rw [List.length_take, List.length_nil] at hlength
    omega
  obtain ⟨k, hcount, hvalue⟩ := exists_scale_trimZeros (digits.take (e.toNat + 1))
    (digits.drop (e.toNat + 1))
  rw [List.take_append_drop] at hvalue
  rw [List.length_drop] at hcount
  have hnumber := parseNumber_point hne hint hfrac
  obtain ⟨c, ds, hcons⟩ := List.exists_cons_of_ne_nil hne
  rw [g6Body_eq_point hlow hhigh, hvalue]
  rw [hcons] at hint hnumber ⊢
  refine ⟨c, if trimZeros (digits.drop (e.toNat + 1)) = [] then ds
    else ds ++ '.' :: trimZeros (digits.drop (e.toNat + 1)), ?_, hint c List.mem_cons_self, ?_⟩
  · split <;> rfl
  · have hpower : e - 5 + k = -(trimZeros (digits.drop (e.toNat + 1))).length := by omega
    rw [hpower, ← hnumber]
    split <;> rfl

/-- Below one. -/
theorem g6Body_leading (hdigits : ∀ c ∈ digits, c.isDigit) (hlen : digits.length = 6)
    (hlow : -4 ≤ e) (hneg : e < 0) :
    ∃ c s, g6Body digits e = c :: s ∧ c.isDigit ∧
      F64.parseNumber (c :: s) = some (F64.scale (F64.digitsValue digits) (e - 5)) := by
  have hexp : ¬ (e < -4 ∨ 6 ≤ e) := by omega
  obtain ⟨k, hcount, hvalue⟩ := exists_scale_trimZeros [] digits
  simp only [List.nil_append] at hvalue
  have htrimmed : ∀ c ∈ trimZeros digits, c.isDigit := fun c hc ↦ hdigits c (mem_trimZeros hc)
  have hbody : g6Body digits e =
      '0' :: '.' :: (List.replicate (-e - 1).toNat '0' ++ trimZeros digits) := by
    rw [g6Body, if_neg hexp, if_neg (by omega)]
    rfl
  have hnumber := F64.parseNumber_frac (List.cons_ne_nil '0' []) (by simp)
    (pad_isDigit htrimmed (k := (-e - 1).toNat)) (Or.inl rfl : F64.ExpTail [])
  refine ⟨'0', _, hbody, rfl, ?_⟩
  rw [List.append_nil, List.singleton_append] at hnumber
  have hzeros : F64.digitsValue (['0'] ++ (List.replicate (-e - 1).toNat '0' ++ trimZeros digits)) =
      F64.digitsValue (trimZeros digits) := by
    have hone : ['0'] = List.replicate 1 '0' := rfl
    rw [hone, F64.digitsValue_zeros_append, F64.digitsValue_zeros_append]
  rw [hnumber, F64.exponent, Option.map_some, hzeros, hvalue]
  congr 2
  rw [List.length_append, List.length_replicate]
  omega

theorem parseNumber_g6Body (hdigits : ∀ c ∈ digits, c.isDigit) (hlen : digits.length = 6)
    (htrim : trimZeros digits ≠ []) (e : ℤ) :
    ∃ c s, g6Body digits e = c :: s ∧ c.isDigit ∧
      F64.parseNumber (c :: s) = some (F64.scale (F64.digitsValue digits) (e - 5)) := by
  by_cases hexp : e < -4 ∨ 6 ≤ e
  · exact g6Body_exp hdigits hlen htrim hexp
  · obtain ⟨hlow, hhigh⟩ := not_or.mp hexp
    by_cases hneg : e < 0
    · exact g6Body_leading hdigits hlen (by omega) hneg
    · exact g6Body_point hdigits hlen (by omega) (by omega)

/-- A finite number reads back rounded to six significant digits. -/
theorem parse_g6_fin (q : ℚ) : F64.parse (g6 (.fin q)) = some (.fin (sixDigits q)) := by
  by_cases hq : q = 0
  · subst hq
    decide +kernel
  · have hpos : 0 < |q| := abs_pos.mpr hq
    obtain ⟨hlow, hhigh⟩ := scientific_bounds hpos
    have hne : (scientific |q|).1 ≠ 0 := by omega
    obtain ⟨c, s, hbody, hc, hnumber⟩ := parseNumber_g6Body (natStr_isDigit (scientific |q|).1)
      (length_natStr hlow hhigh) (trimZeros_ne_nil hne) (scientific |q|).2
    rw [F64.digitsValue_natStr, scale_scientific] at hnumber
    rw [g6, if_neg hq]
    dsimp only
    rw [hbody, sixDigits]
    split
    next => rw [F64.parse_neg_eq hc, hnumber]; rfl
    next => rw [F64.parse_eq hc, hnumber]; rfl

/-- Every formatted number is a text that parses. -/
theorem parse_g6 (v : F64) : (F64.parse (g6 v)).isSome := by
  cases v with
  | nan => decide
  | inf neg => cases neg <;> decide
  | fin q => rw [parse_g6_fin, Option.isSome_some]

end CalxMill.Nvidia
