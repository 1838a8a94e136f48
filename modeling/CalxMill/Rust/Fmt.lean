import CalxMill.Rust.Float

/-!
# Padded and signed forms

The width and sign options of the formatter, and the upper-case map.  A width
counts characters and never cuts.
-/

namespace CalxMill.Rust

/-- The `{:<n}` form of a string. -/
def padRight (n : ℕ) (s : Str) : Str := s ++ List.replicate (n - s.length) ' '

/-- The `{:>n}` form of a string. -/
def padLeft (n : ℕ) (s : Str) : Str := List.replicate (n - s.length) ' ' ++ s

def toAsciiUppercase (s : Str) : Str := s.map Char.toUpper

namespace F64

/-- The `{:+.k}` form. -/
def signed (k : ℕ) (x : F64) : Str :=
  if x = .nan then display x else
  if x < 0 then fixed k x else '+' :: fixed k x

example : padLeft 6 (signed 1 (.fin 2.25)) = "  +2.2" := by decide +kernel

end F64

end CalxMill.Rust
