import CalxMill.Lib.Exec
import CalxMill.Rust.Str

/-!
# Checked arithmetic

Unsigned arithmetic that panics when the result leaves the type.
-/

namespace CalxMill.Rust

open Lib

def checked (bits : ℕ) (op : Str) (n : ℕ) : Exec Str ℕ :=
  if n < 2 ^ bits then pure n else Exec.panic ("attempt to " ++ op ++ " with overflow")

def addU32 (a b : ℕ) : Exec Str ℕ := checked 32 "add" (a + b)

def addU64 (a b : ℕ) : Exec Str ℕ := checked 64 "add" (a + b)

def mulU32 (a b : ℕ) : Exec Str ℕ := checked 32 "multiply" (a * b)

def mulU64 (a b : ℕ) : Exec Str ℕ := checked 64 "multiply" (a * b)

def checkedSub (a b : ℕ) : Exec Str ℕ :=
  if b ≤ a then pure (a - b) else Exec.panic "attempt to subtract with overflow"

variable {bits n m : ℕ} {op : Str}

@[simp] theorem checked_fails : (checked bits op n).Fails ↔ 2 ^ bits ≤ n := by
  rw [checked]
  split
  · next h => exact iff_of_false (Exec.fails_pure _) (Nat.not_le_of_lt h)
  · next h => exact iff_of_true ⟨_, rfl⟩ (Nat.le_of_not_lt h)

@[simp] theorem checked_eq_ok : checked bits op n = .ok m ↔ n < 2 ^ bits ∧ n = m := by
  rw [checked]
  split
  · next h => simp [h]
  · next h => simp [h]

theorem checked_bind_fails {α : Type} {f : ℕ → Exec Str α} {P : Prop}
    (hf : (f n).Fails ↔ P) : (checked bits op n >>= f).Fails ↔ P ∨ 2 ^ bits ≤ n := by
  rw [Exec.fails_bind, checked_fails]
  constructor
  · rintro (h | ⟨m, hm, h⟩)
    · exact Or.inr h
    · obtain ⟨-, rfl⟩ := checked_eq_ok.mp hm
      exact Or.inl (hf.mp h)
  · rintro (h | h)
    · by_cases hn : 2 ^ bits ≤ n
      · exact Or.inl hn
      · exact Or.inr ⟨n, checked_eq_ok.mpr ⟨Nat.lt_of_not_le hn, rfl⟩, hf.mpr h⟩
    · exact Or.inl h

/-- A checked sum returns when the whole sum is in the type. -/
theorem foldlM_addU64_eq_ok {α : Type} {f : α → ℕ} {l : List α} {n t : ℕ} (hn : n < 2 ^ 64) :
    l.foldlM (fun t a ↦ addU64 t (f a)) n = .ok t ↔
      n + (l.map f).sum < 2 ^ 64 ∧ n + (l.map f).sum = t := by
  induction l generalizing n with
  | nil => exact ⟨fun h ↦ ⟨hn, Exec.pure_eq_ok.mp h⟩, fun h ↦ Exec.pure_eq_ok.mpr h.2⟩
  | cons a l ih =>
      rw [List.foldlM_cons, List.map_cons, List.sum_cons, Exec.bind_eq_ok]
      constructor
      · rintro ⟨m, hm, hrest⟩
        obtain ⟨hlt, rfl⟩ := checked_eq_ok.mp hm
        obtain ⟨hfits, rfl⟩ := (ih hlt).mp hrest
        exact ⟨by omega, by omega⟩
      · rintro ⟨hfits, rfl⟩
        exact ⟨n + f a, checked_eq_ok.mpr ⟨by omega, rfl⟩,
          (ih (by omega)).mpr ⟨by omega, by omega⟩⟩

end CalxMill.Rust
