import Mathlib.Data.List.TakeWhile
import Mathlib.Tactic.Common

/-!
# Maximal munch

A list is cut after its longest run of elements of a kind.  A list that is
written as a run with an element of another kind, or nothing, behind it is cut
there.
-/

namespace CalxMill.Lib

variable {α : Type*} {p : α → Bool} {run rest s : List α}

/-- Elements of a kind, at least one. -/
structure Run (p : α → Bool) (run : List α) : Prop where
  ne_nil : run ≠ []
  all : ∀ a ∈ run, p a = true

/-- No element of the kind comes first. -/
def Stops (p : α → Bool) (rest : List α) : Prop := ∀ a ∈ rest.head?, p a = false

theorem stops_dropWhile (p : α → Bool) (s : List α) : Stops p (s.dropWhile p) := by
  intro a ha
  have hhead := List.head?_dropWhile_not p s
  rw [Option.mem_def.mp ha] at hhead
  exact hhead

theorem Stops.takeWhile (h : Stops p s) (q : α → Bool) : Stops p (s.takeWhile q) := by
  cases s with
  | nil => exact h
  | cons a s =>
      rw [List.takeWhile_cons]
      split
      · exact h
      · rintro b ⟨⟩

theorem munch_append (hall : ∀ a ∈ run, p a = true) (hstop : Stops p rest) :
    (run ++ rest).takeWhile p = run ∧ (run ++ rest).dropWhile p = rest := by
  rw [List.takeWhile_append_of_pos hall, List.dropWhile_append_of_pos hall]
  cases rest with
  | nil => simp
  | cons a rest =>
      have ha : p a = false := hstop a rfl
      simp [ha]

/-- A run of one kind ends a run of another. -/
theorem Run.stops_append {q : α → Bool} (h : Run q run) (hkind : ∀ a, q a = true → p a = false)
    (rest : List α) : Stops p (run ++ rest) := by
  cases run with
  | nil => exact absurd rfl h.ne_nil
  | cons a run =>
      rintro b ⟨⟩
      exact hkind a (h.all a List.mem_cons_self)

/-- A first element of the kind starts a run. -/
theorem run_cons_takeWhile {a : α} (ha : p a = true) (s : List α) : Run p (a :: s.takeWhile p) where
  ne_nil := List.cons_ne_nil _ _
  all b hb := by
    rcases List.mem_cons.mp hb with rfl | hb
    · exact ha
    · exact List.mem_takeWhile_imp hb

end CalxMill.Lib
