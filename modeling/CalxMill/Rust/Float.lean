import CalxMill.Lib.ExtNum
import CalxMill.Rust.Str
import Mathlib.Algebra.Order.Field.Rat
import Mathlib.Data.Rat.Floor
import Mathlib.Tactic.Linarith

/-!
# Floating-point numbers

An `f64` is read as an exact rational, an infinity or NaN, so no operation
rounds.  `F64.parse` follows the grammar of the standard library's
`f64::from_str`: an optional sign, then `inf`, `infinity` or `nan` in any
case, or decimal digits with at most one point and an optional exponent.
-/

namespace CalxMill.Rust

open Lib

abbrev F64 := ExtNum ℚ

namespace F64

def digitsValue (ds : Str) : ℕ :=
  ds.foldl (fun n c ↦ 10 * n + (c.toNat - '0'.toNat)) 0

/-- `m` times ten to the power `e`. -/
def scale (m : ℕ) : ℤ → ℚ
  | .ofNat k => m * 10 ^ k
  | .negSucc k => m / 10 ^ (k + 1)

/-- The digits after the exponent mark, with an optional sign. -/
def parseExp (s : Str) : Option ℤ :=
  let digits (t : Str) : Option ℤ :=
    if t ≠ [] ∧ t.all Char.isDigit then some (digitsValue t) else none
  match s with
  | '-' :: t => (digits t).map Neg.neg
  | '+' :: t => digits t
  | t => digits t

def parseNumber (s : Str) : Option ℚ :=
  let (int, s) := s.span Char.isDigit
  let (frac, s) := match s with
    | '.' :: t => t.span Char.isDigit
    | t => ([], t)
  if int = [] ∧ frac = [] then none else
  let m := digitsValue (int ++ frac)
  match s with
  | [] => some (scale m (-frac.length))
  | e :: t =>
      if e = 'e' ∨ e = 'E' then (parseExp t).map fun x ↦ scale m (x - frac.length)
      else none

def parseUnsigned (s : Str) : Option F64 :=
  let l := toAsciiLowercase s
  if l = "inf" ∨ l = "infinity" then some (.inf false) else
  if l = "nan" then some .nan else
  (parseNumber s).map .fin

/-- `str::parse::<f64>`. -/
def parse : Str → Option F64
  | '-' :: s => (parseUnsigned s).map Neg.neg
  | '+' :: s => parseUnsigned s
  | s => parseUnsigned s

/-- The number of decimal places of a fraction with this denominator.  Sums,
products and hundredths of parsed numbers all have a finite expansion; any
other fraction is cut at seventeen places. -/
def places (den : ℕ) : ℕ :=
  ((List.range (den.log2 + 1)).find? fun k ↦ 10 ^ k % den = 0).getD 17

/-- `n` with its last `k` digits behind the point. -/
def withPoint (k n : ℕ) : Str :=
  let ds := natStr n
  let ds := List.replicate (k + 1 - ds.length) '0' ++ ds
  let int := ds.take (ds.length - k)
  if k = 0 then int else int ++ '.' :: ds.drop (ds.length - k)

def decimal (q : ℚ) : Str :=
  withPoint (places q.den) (q.num.natAbs * 10 ^ places q.den / q.den)

/-- The `{}` form. -/
def display : F64 → Str
  | .nan => "NaN"
  | .inf neg => if neg then "-inf" else "inf"
  | .fin q => (if q < 0 then "-" else "" : String) ++ decimal q

/-- The nearest natural number, ties to even. -/
def roundEven (q : ℚ) : ℕ :=
  let n := ⌊q⌋₊
  if q - n < 1 / 2 ∨ (q - n = 1 / 2 ∧ n % 2 = 0) then n else n + 1

theorem le_roundEven {n : ℕ} {q : ℚ} (h : n ≤ q) : n ≤ roundEven q := by
  have hfloor : n ≤ ⌊q⌋₊ := Nat.le_floor h
  unfold roundEven
  dsimp only
  split
  · exact hfloor
  · exact hfloor.trans (Nat.le_succ _)

theorem roundEven_le {n : ℕ} {q : ℚ} (h : q ≤ n) : roundEven q ≤ n := by
  have hfloor : ⌊q⌋₊ ≤ n := Nat.floor_le_of_le h
  unfold roundEven
  dsimp only
  split
  next => exact hfloor
  next hup =>
    apply Nat.succ_le_of_lt
    apply lt_of_le_of_ne hfloor
    intro heq
    apply hup
    left
    rw [heq]
    linarith

/-- Rounding moves a number by a half at most. -/
theorem abs_roundEven_sub_le {q : ℚ} (hq : 0 ≤ q) : |(roundEven q : ℚ) - q| ≤ 1 / 2 := by
  have hlow : (⌊q⌋₊ : ℚ) ≤ q := Nat.floor_le hq
  have hhigh : q < ⌊q⌋₊ + 1 := Nat.lt_floor_add_one q
  rw [abs_le]
  unfold roundEven
  dsimp only
  split
  next h =>
    have hhalf : q - ⌊q⌋₊ ≤ 1 / 2 := by
      rcases h with h | ⟨h, -⟩
      · exact h.le
      · exact h.le
    constructor <;> linarith
  next h =>
    obtain ⟨hhalf, -⟩ := not_or.mp h
    push_cast
    constructor <;> linarith

/-- The `{:.k}` form. -/
def fixed (k : ℕ) : F64 → Str
  | .fin q => (if q < 0 then "-" else "" : String) ++ withPoint k (roundEven (|q| * 10 ^ k))
  | x => display x

example : parse "-1.5e1" = some (.fin (-15)) := by decide +kernel

example : display (.fin (-68.19)) = "-68.19" := by decide +kernel

example : fixed 2 (.fin (-0.125)) = "-0.12" := by decide +kernel

/-! ## Texts that read as a number -/

theorem span_digits {ds rest : Str} (hds : ∀ c ∈ ds, c.isDigit)
    (hrest : ∀ c ∈ rest.head?, ¬ c.isDigit) : (ds ++ rest).span Char.isDigit = (ds, rest) := by
  rw [List.span_eq_takeWhile_dropWhile, List.takeWhile_append_of_pos hds,
    List.dropWhile_append_of_pos hds]
  cases rest with
  | nil => simp
  | cons c rest =>
      have hc : c.isDigit = false := by simpa using hrest c rfl
      simp [hc]

/-- What may follow the digits: nothing, or an exponent. -/
def ExpTail (s : Str) : Prop := s = [] ∨ ∃ t, s = 'e' :: t ∧ (parseExp t).isSome

/-- The exponent behind the digits. -/
def exponent : Str → Option ℤ
  | [] => some 0
  | _ :: t => parseExp t

theorem ExpTail.head {s : Str} (h : ExpTail s) : ∀ c ∈ s.head?, c = 'e' := by
  rcases h with rfl | ⟨t, rfl, -⟩
  · simp
  · simp

theorem parseExp_eq {c : Char} {ds : Str} (hc : c = '-' ∨ c = '+') (hne : ds ≠ [])
    (hds : ∀ c ∈ ds, c.isDigit) :
    parseExp (c :: ds) = some (if c = '-' then -(digitsValue ds : ℤ) else digitsValue ds) := by
  have hall : ds.all Char.isDigit = true := List.all_eq_true.mpr hds
  rcases hc with rfl | rfl
  · simp [parseExp, hne, hall]
  · simp [parseExp, hne, hall]

theorem parseNumber_int {i tail : Str} (hne : i ≠ []) (hint : ∀ c ∈ i, c.isDigit)
    (htail : ExpTail tail) :
    parseNumber (i ++ tail) = (exponent tail).map (scale (digitsValue i)) := by
  have hspan : (i ++ tail).span Char.isDigit = (i, tail) :=
    span_digits hint fun c hc ↦ by simp [htail.head c hc]
  rw [parseNumber]
  rw [hspan]
  rcases htail with rfl | ⟨t, rfl, ht⟩
  · simp [hne, exponent]
  · simp [hne, exponent]

theorem parseNumber_frac {i frac tail : Str} (hne : i ≠ []) (hint : ∀ c ∈ i, c.isDigit)
    (hfrac : ∀ c ∈ frac, c.isDigit) (htail : ExpTail tail) :
    parseNumber (i ++ '.' :: (frac ++ tail)) =
      (exponent tail).map fun x ↦ scale (digitsValue (i ++ frac)) (x - frac.length) := by
  have hspan : (i ++ '.' :: (frac ++ tail)).span Char.isDigit = (i, '.' :: (frac ++ tail)) :=
    span_digits hint (by simp)
  have hspan' : (frac ++ tail).span Char.isDigit = (frac, tail) :=
    span_digits hfrac fun c hc ↦ by simp [htail.head c hc]
  rw [parseNumber]
  rw [hspan]
  simp only [hspan']
  rcases htail with rfl | ⟨t, rfl, ht⟩
  · simp [hne, exponent]
  · simp [hne, exponent]

theorem toLower_of_isDigit {c : Char} (hc : c.isDigit) : c.toLower = c := by
  have hdigit : c.toNat ≤ 57 := (Char.isDigit_iff_toNat.mp hc).2
  apply dif_neg
  intro h
  have hupper : 65 ≤ c.toNat := UInt32.le_iff_toNat_le.mp h.1
  omega

/-- A number that starts with a digit is none of the words. -/
theorem parseUnsigned_eq {c : Char} {s : Str} (hc : c.isDigit) :
    parseUnsigned (c :: s) = (parseNumber (c :: s)).map .fin := by
  have hlower : toAsciiLowercase (c :: s) = c :: toAsciiLowercase s :=
    congrArg (· :: toAsciiLowercase s) (toLower_of_isDigit hc)
  have hword : ∀ d : Char, ¬ d.isDigit → ∀ t, c :: toAsciiLowercase s ≠ d :: t := by
    intro d hd t h
    obtain ⟨rfl, -⟩ := List.cons.inj h
    exact hd hc
  have hinf : c :: toAsciiLowercase s ≠ lit "inf" := hword 'i' (by decide) _
  have hinfinity : c :: toAsciiLowercase s ≠ lit "infinity" := hword 'i' (by decide) _
  have hnan : c :: toAsciiLowercase s ≠ lit "nan" := hword 'n' (by decide) _
  rw [parseUnsigned]
  simp only [hlower, hinf, hinfinity, hnan, or_self, if_false]

theorem parse_eq {c : Char} {s : Str} (hc : c.isDigit) :
    parse (c :: s) = (parseNumber (c :: s)).map .fin := by
  unfold parse
  split
  next h =>
    obtain ⟨rfl, -⟩ := List.cons.inj h
    cases hc
  next h =>
    obtain ⟨rfl, -⟩ := List.cons.inj h
    cases hc
  next => exact parseUnsigned_eq hc

theorem parse_neg_eq {c : Char} {s : Str} (hc : c.isDigit) :
    parse ('-' :: c :: s) = (parseNumber (c :: s)).map fun q ↦ .fin (-q) := by
  rw [parse, parseUnsigned_eq hc, Option.map_map]
  rfl

/-! ## The value of the digits -/

theorem digitsValue_append (ds ds' : Str) :
    digitsValue (ds ++ ds') = digitsValue ds * 10 ^ ds'.length + digitsValue ds' := by
  have happend : digitsValue (ds ++ ds') = Nat.ofDigitChars 10 ds' (digitsValue ds) :=
    Nat.ofDigitChars_append 0
  rw [happend, Nat.ofDigitChars_eq_ofDigitChars_zero, mul_comm]
  rfl

theorem digitsValue_zeros (k : ℕ) : digitsValue (List.replicate k '0') = 0 :=
  Nat.ofDigitChars_replicate_zero

theorem digitsValue_natStr (n : ℕ) : digitsValue (natStr n) = n :=
  Nat.ofDigitChars_ten_toDigits

theorem scale_eq (m : ℕ) (z : ℤ) : scale m z = m * (10 : ℚ) ^ z := by
  cases z with
  | ofNat k => simp [scale]
  | negSucc k => simp [scale, zpow_negSucc, div_eq_mul_inv]

/-- Zeros behind the digits count against the power of ten. -/
theorem scale_append_zeros (ds : Str) (k : ℕ) (z : ℤ) :
    scale (digitsValue (ds ++ List.replicate k '0')) z = scale (digitsValue ds) (z + k) := by
  have hvalue : digitsValue (ds ++ List.replicate k '0') = digitsValue ds * 10 ^ k := by
    rw [digitsValue_append, digitsValue_zeros, List.length_replicate, add_zero]
  rw [hvalue, scale_eq, scale_eq, Nat.cast_mul, Nat.cast_pow, zpow_add₀ (by norm_num),
    zpow_natCast]
  push_cast
  ring

theorem digitsValue_zeros_append (k : ℕ) (ds : Str) :
    digitsValue (List.replicate k '0' ++ ds) = digitsValue ds := by
  rw [digitsValue_append, digitsValue_zeros, zero_mul, zero_add]

end F64

end CalxMill.Rust
