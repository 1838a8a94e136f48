import CalxMill.Nvidia.PyFmt

/-!
# The layout of a formatted number

A six-digit number is written as a decimal without trailing zeros, and with an
exponent mark exactly when the decimal exponent is below -4 or at least 6.
-/

namespace CalxMill.Nvidia

open Lib Rust

/-- Digits, and behind a point further ones of which the last is not a zero. -/
def Positional (m : Str) : Prop :=
  ∃ int frac, int ≠ [] ∧ (∀ c ∈ int, c.isDigit) ∧ (∀ c ∈ frac, c.isDigit) ∧
    frac.getLast? ≠ some '0' ∧ m = if frac = [] then int else int ++ '.' :: frac

/-- A sign and at least two digits. -/
def ExponentMark (e : ℤ) (mark : Str) : Prop :=
  ∃ ds, mark = 'e' :: (if e < 0 then '-' else '+') :: ds ∧ 2 ≤ ds.length ∧
    (∀ c ∈ ds, c.isDigit) ∧ F64.digitsValue ds = e.natAbs

/-- The text of `n * 10 ^ (e - 5)` under its sign. -/
structure SixDigitForm (neg : Bool) (n : ℕ) (e : ℤ) (text : Str) : Prop where
  value : F64.parse text = some (.fin ((if neg then -1 else 1) * n * 10 ^ (e - 5)))
  layout : ∃ mantissa mark, text = (if neg then ['-'] else []) ++ mantissa ++ mark ∧
    Positional mantissa ∧ if e < -4 ∨ 6 ≤ e then ExponentMark e mark else mark = []
  exponent : 'e' ∈ text ↔ e < -4 ∨ 6 ≤ e
  last : text.getLast? ≠ some '.'

/-! ## The digits and the exponent -/

/-- Every six digits under every exponent are those of a number. -/
theorem scientific_mul_zpow {n : ℕ} (hlow : 10 ^ 5 ≤ n) (hhigh : n < 10 ^ 6) (e : ℤ) :
    scientific (n * 10 ^ (e - 5)) = (n, e) := by
  have hten : (0 : ℚ) < 10 ^ (e - 5) := zpow_pos (by norm_num) _
  have hlowq : (10 : ℚ) ^ (5 : ℤ) ≤ n := by exact_mod_cast hlow
  have hhighq : (n : ℚ) < 10 ^ (6 : ℤ) := by exact_mod_cast hhigh
  have hpos : (0 : ℚ) < n * 10 ^ (e - 5) := mul_pos (by linarith) hten
  have hlog : Int.log 10 (n * 10 ^ (e - 5) : ℚ) = e := by
    apply le_antisymm
    · rw [← Int.lt_add_one_iff, ← Int.lt_zpow_iff_log_lt (by norm_num) hpos]
      calc (n : ℚ) * 10 ^ (e - 5) < 10 ^ (6 : ℤ) * 10 ^ (e - 5) :=
            mul_lt_mul_of_pos_right hhighq hten
        _ = ((10 : ℕ) : ℚ) ^ (e + 1) := by
            rw [← zpow_add₀ (by norm_num)]
            push_cast
            congr 1
            ring
    · rw [← Int.zpow_le_iff_le_log (by norm_num) hpos]
      calc ((10 : ℕ) : ℚ) ^ e = 10 ^ (5 : ℤ) * 10 ^ (e - 5) := by
            rw [← zpow_add₀ (by norm_num)]
            push_cast
            congr 1
            ring
        _ ≤ n * 10 ^ (e - 5) := mul_le_mul_of_nonneg_right hlowq hten.le
  have hscaled : (n * 10 ^ (e - 5) : ℚ) * F64.scale 1 (5 - e) = n := by
    rw [F64.scale_eq, Nat.cast_one, one_mul, mul_assoc, ← zpow_add₀ (by norm_num)]
    simp
  have hround : F64.roundEven (n : ℚ) = n :=
    le_antisymm (F64.roundEven_le le_rfl) (F64.le_roundEven le_rfl)
  unfold scientific
  dsimp only
  rw [hlog, hscaled, hround, if_neg hhigh.ne]

/-! ## The layout of the body -/

theorem trimZeros_getLast (ds : Str) : (trimZeros ds).getLast? ≠ some '0' := by
  intro h
  have hne : trimZeros ds ≠ [] := by
    intro hnil
    rw [hnil] at h
    exact absurd h (by simp)
  have hlast := List.rdropWhile_last_not (fun c : Char ↦ c = '0') ds hne
  rw [List.getLast?_eq_some_getLast hne, Option.some.injEq] at h
  exact hlast (decide_eq_true h)

theorem Positional.mem {m : Str} (h : Positional m) {c : Char} (hc : c ∈ m) :
    c.isDigit ∨ c = '.' := by
  obtain ⟨int, frac, -, hint, hfrac, -, rfl⟩ := h
  split at hc
  next => exact Or.inl (hint c hc)
  next =>
    rcases List.mem_append.mp hc with hc | hc
    · exact Or.inl (hint c hc)
    · rcases List.mem_cons.mp hc with hc | hc
      · exact Or.inr hc
      · exact Or.inl (hfrac c hc)

theorem exponentMark_expMark (e : ℤ) : ExponentMark e (expMark e) := by
  refine ⟨_, rfl, ?_, pad_isDigit (natStr_isDigit _), ?_⟩
  · rw [List.length_append, List.length_replicate]
    omega
  · rw [F64.digitsValue_zeros_append, F64.digitsValue_natStr]

variable {digits : Str} {e : ℤ}

/-- The mantissa in front of an exponent has one digit before its point. -/
theorem g6Body_mantissa (hdigits : ∀ c ∈ digits, c.isDigit) (htrim : trimZeros digits ≠ [])
    (he : e < -4 ∨ 6 ≤ e) : ∃ mantissa, Positional mantissa ∧
      g6Body digits e = mantissa ++ expMark e := by
  have htrimmed : ∀ c ∈ trimZeros digits, c.isDigit := fun c hc ↦ hdigits c (mem_trimZeros hc)
  have hlast := trimZeros_getLast digits
  obtain ⟨c, ds, hds⟩ := List.exists_cons_of_ne_nil htrim
  rw [hds] at htrimmed hlast
  obtain ⟨hc, hrest⟩ := List.forall_mem_cons.mp htrimmed
  have hfrac : ds.getLast? ≠ some '0' := by
    cases ds with
    | nil => simp
    | cons d ds => rwa [List.getLast?_cons_cons] at hlast
  refine ⟨_, ⟨[c], ds, List.cons_ne_nil _ _, by simpa using hc, hrest, hfrac, rfl⟩, ?_⟩
  cases ds with
  | nil =>
      simp only [g6Body, if_pos he, hds]
      rfl
  | cons d ds =>
      simp only [g6Body, if_pos he, hds]
      rfl

theorem positional_below_one (hdigits : ∀ c ∈ digits, c.isDigit) (htrim : trimZeros digits ≠ [])
    (hlow : -4 ≤ e) (hneg : e < 0) : Positional (g6Body digits e) := by
  have hexp : ¬ (e < -4 ∨ 6 ≤ e) := by omega
  have htrimmed : ∀ c ∈ trimZeros digits, c.isDigit := fun c hc ↦ hdigits c (mem_trimZeros hc)
  have hne : List.replicate (-e - 1).toNat '0' ++ trimZeros digits ≠ [] :=
    List.append_ne_nil_of_right_ne_nil _ htrim
  have hfrac : (List.replicate (-e - 1).toNat '0' ++ trimZeros digits).getLast? ≠ some '0' := by
    rw [List.getLast?_append_of_ne_nil _ htrim]
    exact trimZeros_getLast digits
  refine ⟨['0'], _, List.cons_ne_nil _ _, by simp, pad_isDigit htrimmed, hfrac, ?_⟩
  rw [g6Body, if_neg hexp, if_neg (by omega), if_neg hne]
  rfl

theorem positional_from_one (hdigits : ∀ c ∈ digits, c.isDigit) (htrim : trimZeros digits ≠ [])
    (hlow : 0 ≤ e) (hhigh : e < 6) : Positional (g6Body digits e) := by
  have hne : digits.take (e.toNat + 1) ≠ [] := by
    intro h
    rcases List.take_eq_nil_iff.mp h with h | h
    · omega
    · rw [h] at htrim
      exact htrim rfl
  refine ⟨digits.take (e.toNat + 1), trimZeros (digits.drop (e.toNat + 1)), hne, ?_, ?_,
    trimZeros_getLast _, g6Body_eq_point hlow hhigh⟩
  · exact fun c hc ↦ hdigits c (List.mem_of_mem_take hc)
  · exact fun c hc ↦ hdigits c (List.mem_of_mem_drop (mem_trimZeros hc))

theorem g6Body_layout (hdigits : ∀ c ∈ digits, c.isDigit) (htrim : trimZeros digits ≠ []) (e : ℤ) :
    ∃ mantissa mark, g6Body digits e = mantissa ++ mark ∧ Positional mantissa ∧
      if e < -4 ∨ 6 ≤ e then ExponentMark e mark else mark = [] := by
  by_cases he : e < -4 ∨ 6 ≤ e
  · obtain ⟨mantissa, hmantissa, hbody⟩ := g6Body_mantissa hdigits htrim he
    refine ⟨mantissa, _, hbody, hmantissa, ?_⟩
    rw [if_pos he]
    exact exponentMark_expMark e
  · refine ⟨g6Body digits e, [], (List.append_nil _).symm, ?_, if_neg he ▸ rfl⟩
    by_cases hneg : e < 0
    · exact positional_below_one hdigits htrim (by omega) hneg
    · exact positional_from_one hdigits htrim (by omega) (by omega)

/-! ## The formatted number -/

theorem Positional.getLast_ne_point {m : Str} (h : Positional m) : m.getLast? ≠ some '.' := by
  obtain ⟨int, frac, hne, hint, hfrac, -, rfl⟩ := h
  have hdigit : ∀ ds : Str, (∀ c ∈ ds, c.isDigit) → ds.getLast? ≠ some '.' := by
    intro ds hds hlast
    exact absurd (hds _ (List.mem_of_getLast? hlast)) (by decide)
  split
  next => exact hdigit int hint
  next hfrac0 =>
    rw [List.getLast?_append_of_ne_nil _ (List.cons_ne_nil _ _)]
    obtain ⟨d, ds, rfl⟩ := List.exists_cons_of_ne_nil hfrac0
    rw [List.getLast?_cons_cons]
    exact hdigit _ hfrac

theorem ExponentMark.getLast_ne_point {mark : Str} (h : ExponentMark e mark) :
    mark ≠ [] ∧ mark.getLast? ≠ some '.' := by
  obtain ⟨ds, rfl, hlen, hds, -⟩ := h
  refine ⟨List.cons_ne_nil _ _, ?_⟩
  obtain ⟨d, ds, rfl⟩ := List.exists_cons_of_length_pos (by omega : 0 < ds.length)
  rw [List.getLast?_cons_cons, List.getLast?_cons_cons]
  intro hlast
  exact absurd (hds _ (List.mem_of_getLast? hlast)) (by decide)

theorem mem_sign {neg : Prop} [Decidable neg] {c : Char} (h : c ∈ if neg then ['-'] else []) :
    c = '-' := by
  split at h
  next => exact List.mem_singleton.mp h
  next => exact absurd h List.not_mem_nil

/-- Digits `n` under the exponent `e` are written in six-digit form. -/
theorem sixDigitForm_of_layout {neg : Bool} {n : ℕ} {text mantissa mark : Str}
    (hvalue : F64.parse text = some (.fin ((if neg then -1 else 1) * n * 10 ^ (e - 5))))
    (htext : text = (if neg then ['-'] else []) ++ mantissa ++ mark)
    (hmantissa : Positional mantissa)
    (hmark : if e < -4 ∨ 6 ≤ e then ExponentMark e mark else mark = []) :
    SixDigitForm neg n e text := by
  have hplain : 'e' ∉ (if neg then ['-'] else []) ++ mantissa := by
    intro h
    rcases List.mem_append.mp h with h | h
    · exact absurd (mem_sign h) (by decide)
    · exact absurd (hmantissa.mem h) (by decide)
  have hne : mantissa ≠ [] := by
    obtain ⟨int, frac, hint, -, -, -, rfl⟩ := hmantissa
    split
    next => exact hint
    next => exact List.append_ne_nil_of_left_ne_nil hint _
  refine ⟨hvalue, ⟨mantissa, mark, htext, hmantissa, hmark⟩, ?_, ?_⟩
  · rw [htext, List.mem_append, or_iff_right hplain]
    by_cases he : e < -4 ∨ 6 ≤ e
    · rw [if_pos he] at hmark
      obtain ⟨ds, rfl, -⟩ := hmark
      exact iff_of_true List.mem_cons_self he
    · rw [if_neg he] at hmark
      rw [hmark]
      exact iff_of_false List.not_mem_nil he
  · by_cases he : e < -4 ∨ 6 ≤ e
    · rw [if_pos he] at hmark
      rw [htext, List.getLast?_append_of_ne_nil _ hmark.getLast_ne_point.1]
      exact hmark.getLast_ne_point.2
    · rw [if_neg he] at hmark
      rw [htext, hmark, List.append_nil, List.getLast?_append_of_ne_nil _ hne]
      exact hmantissa.getLast_ne_point

theorem scientific_zero : scientific 0 = (0, 0) := by decide +kernel

theorem sixDigitForm_g6 {n : ℕ} {e : ℤ} {q : ℚ} (hlow : 10 ^ 5 ≤ n) (hhigh : n < 10 ^ 6)
    (hsci : scientific |q| = (n, e)) : SixDigitForm (q < 0) n e (g6 (.fin q)) := by
  have hne : q ≠ 0 := by
    rintro rfl
    rw [abs_zero, scientific_zero, Prod.mk.injEq] at hsci
    omega
  have htrim : trimZeros (natStr n) ≠ [] := trimZeros_ne_nil (by omega)
  obtain ⟨c, s, hbody, hc, hnumber⟩ := parseNumber_g6Body (natStr_isDigit n)
    (length_natStr hlow hhigh) htrim e
  obtain ⟨mantissa, mark, hsplit, hmantissa, hmark⟩ := g6Body_layout (natStr_isDigit n) htrim e
  rw [F64.digitsValue_natStr, F64.scale_eq] at hnumber
  have htext : g6 (.fin q) = if q < 0 then '-' :: g6Body (natStr n) e else g6Body (natStr n) e := by
    rw [g6, if_neg hne, hsci]
  refine sixDigitForm_of_layout ?_ ?_ hmantissa hmark
  · rw [htext, hbody]
    by_cases hq : q < 0
    · rw [if_pos hq, F64.parse_neg_eq hc, hnumber, if_pos (decide_eq_true hq), neg_one_mul,
        neg_mul]
      rfl
    · rw [if_neg hq, F64.parse_eq hc, hnumber, if_neg (by simpa using hq), one_mul]
      rfl
  · rw [htext, hsplit]
    by_cases hq : q < 0
    · rw [if_pos hq, if_pos (decide_eq_true hq)]
      rfl
    · rw [if_neg hq, if_neg (by simpa using hq)]
      rfl

/-- Six digits, an exponent and a sign are those of some number, and each number
that has them is written in their six-digit form. -/
theorem g6_denotes (n : ℕ) (e : ℤ) (neg : Bool) (hlow : 100000 ≤ n) (hhigh : n ≤ 999999) :
    (∃ q : ℚ, decide (q < 0) = neg ∧ scientific |q| = (n, e)) ∧
      ∀ q : ℚ, decide (q < 0) = neg → scientific |q| = (n, e) →
        SixDigitForm neg n e (g6 (.fin q)) := by
  constructor
  · have hpos : (0 : ℚ) < n * 10 ^ (e - 5) :=
      mul_pos (Nat.cast_pos.mpr (by omega)) (zpow_pos (by norm_num) _)
    have hsci := scientific_mul_zpow (n := n) (by omega) (by omega) e
    cases neg with
    | false => exact ⟨_, decide_eq_false (not_lt.mpr hpos.le), by rwa [abs_of_pos hpos]⟩
    | true =>
        refine ⟨_, decide_eq_true (neg_neg_of_pos hpos), ?_⟩
        rwa [abs_neg, abs_of_pos hpos]
  · rintro q rfl hsci
    exact sixDigitForm_g6 (by omega) (by omega) hsci

/-- 1234570, with the sign of a negative number. -/
theorem g6_denotes_seven_digits :
    (∃ q : ℚ, decide (q < 0) = true ∧ scientific |q| = (123457, 6)) ∧
      ∀ q : ℚ, decide (q < 0) = true → scientific |q| = (123457, 6) →
        SixDigitForm true 123457 6 (g6 (.fin q)) :=
  g6_denotes 123457 6 true (by decide) (by decide)

end CalxMill.Nvidia
